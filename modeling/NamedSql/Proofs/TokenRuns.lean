import NamedSql.Token
import NamedSql.Proofs.LexemeTrim

namespace NamedSql

namespace Token

/-- Puts a character of code in front of tokens. `joined` tells whether these begin with a word that
the character is part of when it is in a word. -/
def addCode (c : Char) (joined : Bool) (ts : List Token) : List Token :=
  if inWord c then
    match joined, ts with
    | true, .word cs :: rest => .word (c :: cs) :: rest
    | _, _ => .word [c] :: ts
  else (ofChar? c).toList ++ ts

theorem inWord_of_isSpace {c : Char} (h : isSpace c) : inWord c = false := by
  simp only [isSpace, Bool.or_eq_true, beq_iff_eq, or_assoc] at h
  rcases h with rfl | rfl | rfl | rfl | rfl <;> decide

theorem ofChar?_of_isSpace {c : Char} (h : isSpace c) : ofChar? c = none := by
  have ho : c ≠ '(' := fun hc => absurd (hc ▸ h) (by decide)
  have hc : c ≠ ')' := fun hc => absurd (hc ▸ h) (by decide)
  simp [ofChar?, ho, hc, h]

/-- The ASCII blanks, the vertical tab apart, separate tokens. -/
theorem isSpace_of_isBlank {c : Char} (h : isBlank c) (ha : c.toNat < 128) (hv : c ≠ '\x0b') :
    isSpace c := by
  have hc : c = Char.ofNat c.toNat := (Char.ofNat_toNat c).symm
  have hn : c.toNat ≠ 11 := fun hn => hv (by rw [hc, hn])
  have : c.toNat = 9 ∨ c.toNat = 10 ∨ c.toNat = 12 ∨ c.toNat = 13 ∨ c.toNat = 32 := by
    simp [isBlank] at h
    omega
  rcases this with hn | hn | hn | hn | hn <;>
  · rw [hc, hn]
    decide

theorem addCode_space {c : Char} (h : isSpace c) (joined : Bool) (ts : List Token) :
    addCode c joined ts = ts := by
  simp [addCode, inWord_of_isSpace h, ofChar?_of_isSpace h]

theorem ofCode_cons (c : Char) (cs : List Char) :
    ofCode (c :: cs) = addCode c (cs.head?.any inWord) (ofCode cs) := by
  by_cases hc : inWord c
  · rw [ofCode_word hc]
    cases cs with
    | nil => simp [addCode, hc]
    | cons d ds =>
      by_cases hd : inWord d
      · rw [ofCode_word hd]
        simp [addCode, hc, hd]
      · simp [addCode, hc, hd]
  · rw [ofCode_not_word (by simpa using hc)]
    simp [addCode, hc]

theorem addCode_append {c : Char} {joined : Bool} {ts : List Token} (h : joined → ts ≠ [])
    (us : List Token) : addCode c joined (ts ++ us) = addCode c joined ts ++ us := by
  unfold addCode
  split
  · cases ts with
    | nil => cases joined <;> simp at h ⊢
    | cons t ts => cases joined <;> cases t <;> rfl
  · rw [List.append_assoc]

end Token

namespace Lexeme

def tokens (ls : List Lexeme) : List Token :=
  (group ls).flatMap Token.ofSegment

/-- Whether the first lexeme is a character of a word. -/
def startsWord : List Lexeme → Bool
  | .code c :: _ => Token.inWord c
  | _ => false

/-- The lists cannot be told apart by the tokens of a longer list that ends in them. -/
structure SameTokens (new old : List Lexeme) : Prop where
  tokens : tokens new = tokens old
  start : startsWord new = startsWord old

theorem tokens_scan (text : List Char) : tokens (scan none text) = Token.ofText text := by
  rw [tokens, group_scan]
  rfl

theorem tokens_region (r : Region) (ls : List Lexeme) :
    tokens (.region r :: ls) = Token.ofSegment (.region r) ++ tokens ls := rfl

theorem tokens_code (c : Char) (ls : List Lexeme) :
    tokens (.code c :: ls) = Token.addCode c (startsWord ls) (tokens ls) := by
  have hone : Token.ofCode [c] = Token.addCode c false [] := by
    rw [Token.ofCode_cons, Token.ofCode_nil]
    rfl
  cases ls with
  | nil => simpa [tokens, group, Segment.addCode, Token.ofSegment, startsWord] using hone
  | cons l ls =>
    cases l with
    | region r =>
      have hn : false = true → ([] : List Token) ≠ [] := fun h => absurd h Bool.false_ne_true
      have ha := Token.addCode_append (c := c) hn (tokens (.region r :: ls))
      rw [List.nil_append, ← hone] at ha
      exact ha.symm
    | code d =>
      obtain ⟨cs, rest, hg⟩ := Segment.exists_addCode d (group ls)
      have hn : Token.inWord d → Token.ofCode (d :: cs) ≠ [] := fun hd => by
        rw [Token.ofCode_word hd]
        exact List.cons_ne_nil _ _
      have ho := Token.ofCode_cons c (d :: cs)
      have ha := Token.addCode_append (c := c) hn (rest.flatMap Token.ofSegment)
      rw [tokens, tokens, group, group, hg]
      simp only [Segment.addCode, List.flatMap_cons, Token.ofSegment, startsWord, ho, ha]
      rfl

theorem tokens_space {c : Char} (h : Token.isSpace c) (ls : List Lexeme) :
    tokens (.code c :: ls) = tokens ls := by
  rw [tokens_code, Token.addCode_space h]

namespace SameTokens

theorem refl (ls : List Lexeme) : SameTokens ls ls :=
  ⟨rfl, rfl⟩

theorem cons {new old : List Lexeme} (h : SameTokens new old) (l : Lexeme) :
    SameTokens (l :: new) (l :: old) := by
  cases l with
  | code c => exact ⟨by rw [tokens_code, tokens_code, h.tokens, h.start], rfl⟩
  | region r => exact ⟨by rw [tokens_region, tokens_region, h.tokens], rfl⟩

/-- A region is one token or none, according to its kind. -/
theorem region {new old : List Lexeme} {r s : Region} (h : SameTokens new old)
    (hk : r.kind = s.kind) : SameTokens (.region r :: new) (.region s :: old) := by
  refine ⟨?_, rfl⟩
  rw [tokens_region, tokens_region, h.tokens, Token.ofSegment, Token.ofSegment, hk]

end SameTokens

/-- The blanks of the code separate tokens. -/
def Spaced (ls : List Lexeme) : Prop :=
  ∀ c, .code c ∈ ls → isBlank c → Token.isSpace c

@[simp] theorem spaced_code_iff {c : Char} {ls : List Lexeme} :
    Spaced (.code c :: ls) ↔ (isBlank c → Token.isSpace c) ∧ Spaced ls := by
  simp [Spaced]

@[simp] theorem spaced_region_iff {r : Region} {ls : List Lexeme} :
    Spaced (.region r :: ls) ↔ Spaced ls := by
  simp [Spaced]

theorem spaced_trimStart {ls : List Lexeme} (h : Spaced ls) : Spaced (trimStart ls) := by
  fun_induction trimStart ls with
  | case1 c ls _ ih => exact ih (spaced_code_iff.mp h).2
  | case2 => exact h
  | case3 => exact h

theorem tokens_trimStart {ls : List Lexeme} (h : Spaced ls) :
    tokens (trimStart ls) = tokens ls := by
  fun_induction trimStart ls with
  | case1 c ls hc ih =>
    obtain ⟨hs, hls⟩ := spaced_code_iff.mp h
    rw [tokens_space (hs hc), ih hls]
  | case2 => rfl
  | case3 => rfl

theorem sameTokens_trimEnd {ls : List Lexeme} (h : Spaced ls) : SameTokens (trimEnd ls) ls := by
  fun_induction trimEnd ls with
  | case1 => exact .refl []
  | case2 c ls hc ih =>
    obtain ⟨hs, hls⟩ := spaced_code_iff.mp h
    simp only [Bool.and_eq_true, List.isEmpty_iff] at hc
    have ht := (ih hls).tokens
    rw [hc.1] at ht
    exact ⟨by rw [tokens_space (hs hc.2), ht], (Token.inWord_of_isSpace (hs hc.2)).symm⟩
  | case3 c ls _ ih => exact (ih (spaced_code_iff.mp h).2).cons _
  | case4 r ls ih => exact (ih (spaced_region_iff.mp h)).region r.trimOpen_kind

end Lexeme

end NamedSql
