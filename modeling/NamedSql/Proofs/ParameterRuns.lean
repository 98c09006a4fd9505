import NamedSql.Parameter
import NamedSql.Proofs.BlankEnds

namespace NamedSql

theorem not_isIdentifierStart {c : Char} (h : isIdentifierRest c = false) :
    isIdentifierStart c = false := by
  cases hs : isIdentifierStart c with
  | false => rfl
  | true => simp [isIdentifierRest_of_start hs] at h

/-- An identifier ends where no character of identifiers follows. -/
theorem identifierAt?_append {ds : List Char} (h : ∀ d ∈ ds.head?, isIdentifierRest d = false)
    (cs : List Char) : identifierAt? (cs ++ ds) = identifierAt? cs := by
  have hds : ds.takeWhile isIdentifierRest = [] := by
    cases ds with
    | nil => rfl
    | cons d ds => simp [h d rfl]
  have ht : (cs ++ ds).takeWhile isIdentifierRest = cs.takeWhile isIdentifierRest := by
    rw [List.takeWhile_append]
    split
    · rename_i hl
      rw [hds, List.append_nil, (List.takeWhile_prefix _).eq_of_length hl]
    · rfl
  cases cs with
  | nil =>
    cases ds with
    | nil => rfl
    | cons d ds => simp [identifierAt?, not_isIdentifierStart (h d rfl)]
  | cons c cs =>
    rw [List.cons_append, identifierAt?, identifierAt?, ← List.cons_append, ht]

theorem parametersOfCode_congr {b : Option Char} {chars : List Char}
    (h : chars.head? = some ':' → b ≠ some ':') :
    parametersOfCode b chars = parametersOfCode none chars := by
  cases chars with
  | nil => rfl
  | cons c cs =>
    rw [parametersOfCode, parametersOfCode]
    by_cases hc : c = ':'
    · rw [if_pos ⟨hc, h (congrArg some hc)⟩, if_pos ⟨hc, by simp⟩]
    · rw [if_neg fun h => hc h.1, if_neg fun h => hc h.1]

namespace Segment
variable {text chars : List Char} {front back : List Segment} {s t : Segment}

theorem not_both_code (h : ofText text = front ++ s :: t :: back) : ¬ (s.isCode ∧ t.isCode) := by
  have hchain := isChain_lex none text
  rw [show lex none text = _ from h] at hchain
  exact (List.isChain_cons_cons.mp (List.isChain_append.mp hchain).2.1).1

/-- No colon stands in front of code that begins with a colon. -/
theorem getLast?_ne_colon (h : ofText text = front ++ .code chars :: back)
    (hc : chars.head? = some ':') : (join front).getLast? ≠ some ':' := by
  rcases List.eq_nil_or_concat front with rfl | ⟨init, s, rfl⟩
  · exact fun he => by cases he
  rw [List.concat_eq_append, List.append_assoc, List.singleton_append] at h
  rw [List.concat_eq_append]
  cases s with
  | code ds => exact absurd ⟨rfl, rfl⟩ (not_both_code h)
  | region r =>
    obtain ⟨shape, -, released⟩ := region_of_ofText h
    have hhead : (join (.code chars :: back)).head? = some ':' := by
      rw [join_cons, Segment.text, List.head?_append, hc, Option.some_or]
    have ht : r.terminated := by
      cases ht : r.terminated with
      | true => rfl
      | false =>
        rw [Region.Released, ht, if_neg Bool.false_ne_true] at released
        rw [released] at hhead
        cases hhead
    have hk : r.kind ≠ .lineComment := by
      intro hk
      rw [Region.Released, if_pos ht, hk] at released
      exact absurd (released _ hhead) (by decide)
    obtain ⟨inner, hi, -⟩ := shape.closes
    have hopening : r.text.head? ≠ some ':' := by
      rw [hi]
      cases r.kind <;> simp [Region.Kind.opening]
    have hne := shape.text_ne_nil
    rw [join_append, join_cons, join_nil, List.append_nil, Segment.text, List.getLast?_append,
      List.getLast?_eq_some_getLast hne, Option.some_or, ← List.getLast?_eq_some_getLast hne,
      shape.getLast?_text ht hk]
    exact hopening

/-- No name goes on behind the code that it stands in. -/
theorem isIdentifierRest_head?_join (h : ofText text = front ++ .code chars :: back) :
    ∀ c ∈ (join back).head?, isIdentifierRest c = false := by
  cases back with
  | nil => exact fun c hc => by cases hc
  | cons s back =>
    cases s with
    | code ds => exact absurd ⟨rfl, rfl⟩ (not_both_code h)
    | region r =>
      rw [← List.singleton_append, ← List.append_assoc] at h
      obtain ⟨c, cs, hr, -, hrest⟩ := (region_of_ofText h).1.exists_text_cons
      intro d hd
      rw [join_cons, Segment.text, hr] at hd
      obtain rfl := Option.some.inj hd
      exact hrest

end Segment

namespace Lexeme

/-- The code that the list begins with. -/
def codeRun : List Lexeme → List Char
  | .code c :: ls => c :: codeRun ls
  | _ => []

/-- The names after the single colons of the code, as `before` stands in front of it. -/
def parametersFrom (before : Option Char) : List Lexeme → List (List Char)
  | [] => []
  | .code c :: ls =>
    let later := parametersFrom (some c) ls
    if c = ':' ∧ before ≠ some ':' then (identifierAt? (codeRun ls)).toList ++ later else later
  | .region _ :: ls => parametersFrom none ls

theorem codeRun_map_code_append (cs : List Char) (ls : List Lexeme) :
    codeRun (cs.map .code ++ ls) = cs ++ codeRun ls := by
  induction cs with
  | nil => rfl
  | cons c cs ih => rw [List.map_cons, List.cons_append, codeRun, ih, List.cons_append]

theorem parametersFrom_of_codeRun {ls : List Lexeme} (h : codeRun ls = []) (before : Option Char) :
    parametersFrom before ls = parametersFrom none ls := by
  cases ls with
  | nil => rfl
  | cons l ls =>
    cases l with
    | code c => simp [codeRun] at h
    | region r => rfl

theorem parametersFrom_map_code_append {ls : List Lexeme} (h : codeRun ls = []) (cs : List Char)
    (before : Option Char) :
    parametersFrom before (cs.map .code ++ ls) =
      parametersOfCode before cs ++ parametersFrom none ls := by
  induction cs generalizing before with
  | nil => exact parametersFrom_of_codeRun h before
  | cons c cs ih =>
    rw [List.map_cons, List.cons_append, parametersFrom, parametersOfCode, ih,
      codeRun_map_code_append, h, List.append_nil]
    split
    · rw [List.append_assoc]
    · rfl

/-- Where no two stretches of code touch, each is read by itself. -/
theorem parametersFrom_flatMap_lexemes {segments : List Segment}
    (h : segments.IsChain fun s t => ¬ (s.isCode ∧ t.isCode)) :
    parametersFrom none (segments.flatMap Segment.lexemes) =
      segments.flatMap Segment.parameters := by
  induction segments with
  | nil => rfl
  | cons s rest ih =>
    obtain ⟨hs, hr⟩ := List.isChain_cons.mp h
    rw [List.flatMap_cons, List.flatMap_cons, ← ih hr]
    cases s with
    | region r => rfl
    | code cs =>
      refine parametersFrom_map_code_append ?_ cs none
      cases rest with
      | nil => rfl
      | cons t rest =>
        cases t with
        | region r => rfl
        | code ds => exact absurd ⟨rfl, rfl⟩ (hs _ rfl)

theorem parametersFrom_scan (text : List Char) :
    (parametersFrom none (scan none text)).eraseDups = parametersOfText text := by
  rw [scan, parametersFrom_flatMap_lexemes (Segment.isChain_lex none text)]
  rfl

theorem parametersFrom_code_of_ne {c : Char} (hc : c ≠ ':') (before : Option Char)
    (ls : List Lexeme) : parametersFrom before (.code c :: ls) = parametersFrom (some c) ls := by
  rw [parametersFrom, if_neg fun h => hc h.1]

/-- Of the character in front it matters only whether that is a colon. -/
theorem parametersFrom_congr {b b' : Option Char} (h : b = some ':' ↔ b' = some ':')
    (ls : List Lexeme) : parametersFrom b ls = parametersFrom b' ls := by
  cases ls with
  | nil => rfl
  | cons l ls =>
    cases l with
    | code c => simp only [parametersFrom, ne_eq, h]
    | region r => rfl

theorem codeRun_append (as bs : List Lexeme) :
    codeRun (as ++ bs) = codeRun as ∨ codeRun (as ++ bs) = codeRun as ++ codeRun bs := by
  induction as with
  | nil => exact .inr rfl
  | cons l as ih =>
    cases l with
    | code d => simpa [codeRun] using ih
    | region r => exact .inl rfl

/-- A character that is no colon and in no name divides the parameters. -/
theorem parametersFrom_append_code {c : Char} (hi : isIdentifierRest c = false) (hc : c ≠ ':')
    (as bs : List Lexeme) (before : Option Char) :
    parametersFrom before (as ++ .code c :: bs) =
      parametersFrom before as ++ parametersFrom none bs := by
  induction as generalizing before with
  | nil =>
    rw [List.nil_append, parametersFrom_code_of_ne hc]
    exact parametersFrom_congr (by simpa using hc) bs
  | cons l as ih =>
    cases l with
    | region r => exact ih none
    | code d =>
      have hn : identifierAt? (codeRun (as ++ .code c :: bs)) = identifierAt? (codeRun as) := by
        rcases codeRun_append as (.code c :: bs) with h | h
        · rw [h]
        · rw [h, codeRun, identifierAt?_append (by simpa using hi)]
      simp only [List.cons_append, parametersFrom, ih, hn]
      split
      · rw [List.append_assoc]
      · rfl

theorem parametersFrom_concat {c : Char} (hi : isIdentifierRest c = false) (hc : c ≠ ':')
    (ls : List Lexeme) (before : Option Char) :
    parametersFrom before (ls ++ [.code c]) = parametersFrom before ls := by
  rw [parametersFrom_append_code hi hc, parametersFrom, List.append_nil]

end Lexeme

end NamedSql
