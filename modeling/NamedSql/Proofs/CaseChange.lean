import NamedSql.Proofs.LetterCase
import NamedSql.Proofs.RegionExchange

namespace NamedSql

/-- The second character is the first one, or the same ASCII letter in upper or lower case. -/
def Recased (c d : Char) : Prop :=
  d = c ∨ c.isAlpha ∧ (d = c.toUpper ∨ d = c.toLower)

instance : DecidableRel Recased := fun _ _ =>
  inferInstanceAs (Decidable (_ ∨ _ ∧ (_ ∨ _)))

theorem Recased.toUpper_eq {c d : Char} (h : Recased c d) : d.toUpper = c.toUpper := by
  rcases h with rfl | ⟨-, rfl | rfl⟩
  · rfl
  · exact Char.toUpper_toUpper_eq_toUpper c
  · exact Char.toUpper_toLower_eq_toUpper c

namespace Region

variable {before : Option Char}

theorem takeWhile_map_toUpper (text : List Char) :
    (text.map Char.toUpper).takeWhile isIdentifierRest =
      (text.takeWhile isIdentifierRest).map Char.toUpper := by
  rw [List.takeWhile_map]
  exact congrArg (fun p => (text.takeWhile p).map Char.toUpper) (funext isIdentifierRest_toUpper)

theorem afterRun_map_toUpper (text : List Char) :
    afterRun (text.map Char.toUpper) = (afterRun text).map Char.toUpper := by
  rw [afterRun, List.dropWhile_map, List.head?_map]
  exact congrArg (fun p => (text.dropWhile p).head?.map Char.toUpper)
    (funext isIdentifierRest_toUpper)

theorem isIdentifier_map_toUpper (text : List Char) :
    isIdentifier (text.map Char.toUpper) = isIdentifier text := by
  cases text with
  | nil => rfl
  | cons c cs =>
    rw [List.map_cons, isIdentifier, isIdentifier, isIdentifierStart_toUpper, List.all_map]
    exact congrArg (fun p => isIdentifierStart c && cs.all p) (funext isIdentifierRest_toUpper)

/-- A character that is no letter shows in upper case where it stands. -/
theorem map_toUpper_eq_some_iff {shown : Option Char} {d : Char} (hd : d.isAlphanum = false) :
    shown.map Char.toUpper = some d ↔ shown = some d := by
  cases shown with
  | none => simp
  | some c => simp [toUpper_eq_iff hd]

theorem tag?_map_toUpper_eq_none_iff {text : List Char} :
    tag? (text.map Char.toUpper) = none ↔ tag? text = none := by
  rw [tag?_eq_none_iff, tag?_eq_none_iff, afterRun_map_toUpper, takeWhile_map_toUpper,
    map_toUpper_eq_some_iff (by decide), isIdentifier_map_toUpper, Ne, Ne, List.map_eq_nil_iff]

theorem Kind.opens?_map_toUpper_eq_none_iff {text : List Char} :
    opens? before (text.map Char.toUpper) = none ↔ opens? before text = none := by
  cases text with
  | nil => exact Iff.rfl
  | cons c text =>
    rw [List.map_cons, opens?_cons_eq_none_iff, opens?_cons_eq_none_iff, List.head?_map,
      tag?_map_toUpper_eq_none_iff]
    simp only [Ne, map_toUpper_eq_some_iff (show ('-').isAlphanum = false by decide),
      map_toUpper_eq_some_iff (show ('*').isAlphanum = false by decide),
      toUpper_eq_iff (show ('\'').isAlphanum = false by decide),
      toUpper_eq_iff (show ('"').isAlphanum = false by decide),
      toUpper_eq_iff (show ('-').isAlphanum = false by decide),
      toUpper_eq_iff (show ('/').isAlphanum = false by decide),
      toUpper_eq_iff (show ('$').isAlphanum = false by decide)]

theorem Kind.released_map_toUpper_iff {kind : Kind} {rest : List Char} :
    kind.Released (rest.map Char.toUpper) ↔ kind.Released rest := by
  cases kind with
  | singleQuoted =>
    rw [Released, Released, List.head?_map, Ne, Ne, map_toUpper_eq_some_iff (by decide)]
  | doubleQuoted =>
    rw [Released, Released, List.head?_map, Ne, Ne, map_toUpper_eq_some_iff (by decide)]
  | lineComment =>
    cases rest with
    | nil => exact Iff.rfl
    | cons c rest => simp [Released, toUpper_eq_iff (show ('\n').isAlphanum = false by decide)]
  | blockComment => exact Iff.rfl
  | dollarQuoted tag => exact Iff.rfl

theorem released_map_toUpper_iff {r : Region} {rest : List Char} :
    r.Released (rest.map Char.toUpper) ↔ r.Released rest := by
  unfold Released
  split
  · exact Kind.released_map_toUpper_iff
  · rw [List.map_eq_nil_iff]

end Region

namespace Lexeme

/-- The lexeme with a character of code in upper case. -/
def upper : Lexeme → Lexeme
  | .code c => .code c.toUpper
  | .region r => .region r

@[simp] theorem upper_code (c : Char) : upper (.code c) = .code c.toUpper := rfl

@[simp] theorem upper_region (r : Region) : upper (.region r) = .region r := rfl

theorem map_toUpper_join_map_upper (ls : List Lexeme) :
    (join (ls.map upper)).map Char.toUpper = (join ls).map Char.toUpper := by
  induction ls with
  | nil => rfl
  | cons l ls ih =>
    cases l with
    | code c => simp [text, ih]
    | region r => simp [text, ih]

/-- A scan stays in order when the letters of its code change their case. -/
theorem scanned_map_upper_iff {ls : List Lexeme} {before : Option Char} :
    Scanned before (ls.map upper) ↔ Scanned before ls := by
  induction ls generalizing before with
  | nil => exact Iff.rfl
  | cons l ls ih =>
    have hj := map_toUpper_join_map_upper ls
    cases l with
    | code c =>
      have hopens : Region.Kind.opens? before (c.toUpper :: join (ls.map upper)) = none ↔
          Region.Kind.opens? before (c :: join ls) = none := by
        rw [← Region.Kind.opens?_map_toUpper_eq_none_iff, List.map_cons, hj,
          Char.toUpper_toUpper_eq_toUpper, ← List.map_cons,
          Region.Kind.opens?_map_toUpper_eq_none_iff]
      have hname : (some c.toUpper).any isNameChar = (some c).any isNameChar :=
        isNameChar_toUpper c
      rw [List.map_cons, upper_code, scanned_code_iff, scanned_code_iff, hopens, ih]
      exact and_congr_right fun _ =>
        ⟨fun h => h.congr_before fun _ => hname, fun h => h.congr_before fun _ => hname.symm⟩
    | region r =>
      have hreleased : r.Released (join (ls.map upper)) ↔ r.Released (join ls) := by
        rw [← Region.released_map_toUpper_iff, hj, Region.released_map_toUpper_iff]
      rw [List.map_cons, upper_region, scanned_region_iff, scanned_region_iff, hreleased, ih]

theorem strip_map_upper (ls : List Lexeme) : strip (ls.map upper) = (strip ls).map upper := by
  induction ls with
  | nil => rfl
  | cons l ls ih =>
    rw [List.map_cons]
    cases l with
    | code c => rw [upper_code, strip_code, strip_code, ih, List.map_cons, upper_code]
    | region r =>
      rw [upper_region]
      rcases r.kind.comment_cases with hk | hk | hk
      · rw [strip_lineComment hk, strip_lineComment hk, ih]
      · rw [strip_blockComment hk, strip_blockComment hk, ih]
        rfl
      · rw [strip_literal hk, strip_literal hk, ih, List.map_cons, upper_region]

theorem trimStart_map_upper (ls : List Lexeme) :
    trimStart (ls.map upper) = (trimStart ls).map upper := by
  fun_induction trimStart ls with
  | case1 c ls hc ih => rw [List.map_cons, upper_code, trimStart, isBlank_toUpper, if_pos hc, ih]
  | case2 c ls hc => rw [List.map_cons, upper_code, trimStart, isBlank_toUpper, if_neg hc]
  | case3 ls h =>
    cases ls with
    | nil => rfl
    | cons l ls =>
      cases l with
      | code c => exact absurd rfl (h c ls)
      | region r => rfl

theorem trimEnd_map_upper (ls : List Lexeme) : trimEnd (ls.map upper) = (trimEnd ls).map upper := by
  induction ls with
  | nil => rfl
  | cons l ls ih =>
    cases l with
    | code c =>
      rw [List.map_cons, upper_code, trimEnd, trimEnd, ih, List.isEmpty_map, isBlank_toUpper]
      split <;> rfl
    | region r =>
      rw [List.map_cons, upper_region, trimEnd, trimEnd, ih, List.map_cons, upper_region]

theorem addCode_map_upper (c : Char) (joined : Bool) (ts : List Token) :
    Token.addCode c.toUpper joined (ts.map Token.upper) =
      (Token.addCode c joined ts).map Token.upper := by
  unfold Token.addCode
  rw [inWord_toUpper]
  split
  · cases joined with
    | false => rfl
    | true =>
      cases ts with
      | nil => rfl
      | cons t ts => cases t <;> rfl
  · have ho : (Token.ofChar? c).toList.map Token.upper = (Token.ofChar? c).toList := by
      unfold Token.ofChar?
      split
      · rfl
      split
      · rfl
      split <;> rfl
    rw [ofChar?_toUpper, List.map_append, ho]

theorem tokens_map_upper (ls : List Lexeme) :
    tokens (ls.map upper) = (tokens ls).map Token.upper := by
  induction ls with
  | nil => rfl
  | cons l ls ih =>
    cases l with
    | code c =>
      have hs : startsWord (ls.map upper) = startsWord ls := by
        cases ls with
        | nil => rfl
        | cons l ls =>
          cases l with
          | code d => exact inWord_toUpper d
          | region r => rfl
      rw [List.map_cons, upper_code, tokens_code, tokens_code, ih, hs, addCode_map_upper]
    | region r =>
      rw [List.map_cons, upper_region, tokens_region, tokens_region, ih, List.map_append,
        Token.ofSegment]
      split <;> rfl

end Lexeme

/-- The words of a statement are those of its scan, in upper case if the scan is. -/
theorem map_upper_statementTokens {old new : List Char}
    (h : (Lexeme.scan none new).map Lexeme.upper = (Lexeme.scan none old).map Lexeme.upper) :
    (statementTokens new).map Token.upper = (statementTokens old).map Token.upper := by
  have hts (sql : List Char) : (statementTokens sql).map Token.upper = Lexeme.tokens (Lexeme.trimEnd
      (Lexeme.trimStart (Lexeme.strip ((Lexeme.scan none sql).map Lexeme.upper)))) := by
    rw [statementTokens, ← Lexeme.tokens_scan, scan_stripComments, Lexeme.strip_map_upper,
      Lexeme.trimStart_map_upper, Lexeme.trimEnd_map_upper, Lexeme.tokens_map_upper]
  rw [hts, hts, h]

/-- What related elements have in common, related lists have in common. -/
theorem map_eq_map_of_forall₂ {α β : Type} {related : α → α → Prop} {f : α → β} {old new : List α}
    (h : List.Forall₂ related old new) (hf : ∀ a b, related a b → f b = f a) :
    new.map f = old.map f := by
  induction h with
  | nil => rfl
  | cons head _ ih => rw [List.map_cons, List.map_cons, hf _ _ head, ih]

namespace Segment

/-- The letters of code may change their case. A region stays as it is. -/
inductive Recased : Segment → Segment → Prop
  | code {old new : List Char} (chars : List.Forall₂ NamedSql.Recased old new) :
      Recased (.code old) (.code new)
  | region (r : Region) : Recased (.region r) (.region r)

instance : DecidableRel Recased
  | .code _, .code _ => decidable_of_iff _ ⟨.code, fun | .code chars => chars⟩
  | .region r, .region s =>
    decidable_of_iff (r = s) ⟨fun h => h ▸ .region r, fun | .region _ => rfl⟩
  | .code _, .region _ => .isFalse nofun
  | .region _, .code _ => .isFalse nofun

/-- The kind of a region. Code has none. -/
def kind? : Segment → Option Region.Kind
  | .code _ => none
  | .region r => some r.kind

theorem utf8Size_toUpper (c : Char) : c.toUpper.utf8Size = c.utf8Size :=
  apply_toUpper (by decide) c

theorem byteLength_map_toUpper (cs : List Char) :
    byteLength (cs.map Char.toUpper) = byteLength cs := by
  induction cs with
  | nil => rfl
  | cons c cs ih => rw [List.map_cons, byteLength_cons, byteLength_cons, utf8Size_toUpper, ih]

namespace Recased
variable {s t : Segment}

theorem kind?_eq (h : Recased s t) : t.kind? = s.kind? := by
  cases h <;> rfl

theorem isCode_eq (h : Recased s t) : t.isCode = s.isCode := by
  cases h <;> rfl

theorem byteLength_eq (h : Recased s t) : byteLength t.text = byteLength s.text := by
  cases h with
  | code chars =>
    rw [text, text, ← byteLength_map_toUpper,
      map_eq_map_of_forall₂ chars fun _ _ => NamedSql.Recased.toUpper_eq, byteLength_map_toUpper]
  | region r => rfl

theorem map_upper_lexemes (h : Recased s t) :
    t.lexemes.map Lexeme.upper = s.lexemes.map Lexeme.upper := by
  cases h with
  | @code old new chars =>
    have hcode (cs : List Char) : (cs.map Lexeme.code).map Lexeme.upper =
        (cs.map Char.toUpper).map Lexeme.code := by
      rw [List.map_map, List.map_map]
      rfl
    rw [lexemes, lexemes, hcode, hcode,
      map_eq_map_of_forall₂ chars fun _ _ => NamedSql.Recased.toUpper_eq]
  | region r => rfl

end Recased

section Lists
variable {old new : List Segment}

theorem rangesFrom_eq (h : List.Forall₂ Recased old new) (start : Nat) :
    rangesFrom start new = rangesFrom start old := by
  induction h generalizing start with
  | nil => rfl
  | cons head _ ih => rw [rangesFrom, rangesFrom, head.byteLength_eq, ih]

theorem map_upper_flatMap_lexemes (h : List.Forall₂ Recased old new) :
    (new.flatMap lexemes).map Lexeme.upper = (old.flatMap lexemes).map Lexeme.upper := by
  rw [List.map_flatMap, List.map_flatMap]
  exact congrArg List.flatten (map_eq_map_of_forall₂ h fun _ _ => Recased.map_upper_lexemes)

theorem text_ne_nil_of_recased (h : List.Forall₂ Recased old new) (hne : ∀ s ∈ old, s.text ≠ []) :
    ∀ t ∈ new, t.text ≠ [] := by
  induction h with
  | nil => simp
  | cons head _ ih =>
    rw [List.forall_mem_cons] at hne ⊢
    refine ⟨fun ht => hne.1 ?_, ih hne.2⟩
    rw [← byteLength_eq_zero_iff, ← head.byteLength_eq, ht, byteLength_nil]

end Lists

/-- The scan of a text whose code has letters in another case finds the segments with these
letters. -/
theorem ofText_recased {text : List Char} {segments : List Segment}
    (h : List.Forall₂ Recased (ofText text) segments) : ofText (join segments) = segments := by
  have hs : Lexeme.Scanned none (segments.flatMap lexemes) := by
    rw [← Lexeme.scanned_map_upper_iff, map_upper_flatMap_lexemes h, Lexeme.scanned_map_upper_iff]
    exact Lexeme.scanned_scan none text
  have hcode : segments.map isCode = (ofText text).map isCode :=
    map_eq_map_of_forall₂ h fun _ _ => Recased.isCode_eq
  exact ofText_join hs (text_ne_nil_of_recased h fun s hs => text_ne_nil_of_mem_lex hs)
    (isChain_of_map_isCode hcode (isChain_lex none text))

end Segment

/-- Two scripts that differ in the case of letters only are the same in all of this. -/
structure AlikeBesidesCase (old new : String) : Prop where
  ranges : Segment.ranges (Segment.ofText new.toList) = Segment.ranges (Segment.ofText old.toList)
  kinds : (Segment.ofText new.toList).map Segment.kind? =
    (Segment.ofText old.toList).map Segment.kind?
  mode : modeOf new = modeOf old
  hasReturning : hasReturning new = hasReturning old
  leadingWord : leadingWord new = leadingWord old
  family : (Analysis.ofStatement new).family = (Analysis.ofStatement old).family

/-- The case of ASCII letters in the code of a script does not matter. -/
theorem alike_of_recased {old new : String} {segments : List Segment}
    (h : List.Forall₂ Segment.Recased (Segment.ofText old.toList) segments)
    (hn : new.toList = Segment.join segments) : AlikeBesidesCase old new := by
  have hs : Segment.ofText new.toList = segments := by rw [hn, Segment.ofText_recased h]
  have hts : (statementTokens new.toList).map Token.upper =
      (statementTokens old.toList).map Token.upper := by
    apply map_upper_statementTokens
    rw [Segment.scan_of_ofText hs, Segment.scan_of_ofText rfl, Segment.map_upper_flatMap_lexemes h]
  have hl : leadingWordOfStatement? new.toList = leadingWordOfStatement? old.toList := by
    have hupper (sql : List Char) : leadingWordOfStatement? sql =
        (leadingWord? ((statementTokens sql).map Token.upper)).map (·.1) := by
      rw [leadingWord?_map_upper, leadingWordOfStatement?, Option.map_map]
      rfl
    rw [hupper, hupper, hts]
  refine ⟨?_, ?_, ?_, ?_, ?_, ?_⟩
  · rw [Segment.ranges_eq_rangesFrom, Segment.ranges_eq_rangesFrom, hs, Segment.rangesFrom_eq h]
  · rw [hs, map_eq_map_of_forall₂ h fun _ _ => Segment.Recased.kind?_eq]
  · unfold modeOf Mode.ofStatement
    rw [← Mode.ofTokens_map_upper, hts, Mode.ofTokens_map_upper]
  · unfold NamedSql.hasReturning
    rw [← hasReturningOfTokens_map_upper, hts, hasReturningOfTokens_map_upper]
  · unfold NamedSql.leadingWord
    rw [hl]
  · unfold Analysis.ofStatement
    rw [hl]

theorem alike_of_recased_dollars :
    AlikeBesidesCase "insert INTO t$x$y VALUES ($a$ Returning $a$) /* b */ rEturning id"
      "INSERT into T$X$Y values ($a$ Returning $a$) /* b */ returning ID" := by
  have h : List.Forall₂ Segment.Recased
      (Segment.ofText
        "insert INTO t$x$y VALUES ($a$ Returning $a$) /* b */ rEturning id".toList)
      (Segment.ofText
        "INSERT into T$X$Y values ($a$ Returning $a$) /* b */ returning ID".toList) := by
    decide +kernel
  exact alike_of_recased h (Segment.join_ofText _).symm

end NamedSql
