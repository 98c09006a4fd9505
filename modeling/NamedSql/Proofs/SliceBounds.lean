import NamedSql.Proofs.FirstAppearance
import NamedSql.Proofs.ParameterRuns
import NamedSql.Proofs.TokenJoin

namespace NamedSql

open Lexeme

/-- A number in decimal digits, perhaps with a point. -/
def IsDecimal (text : List Char) : Prop :=
  text ≠ [] ∧ ∀ c ∈ text, c.isDigit ∨ c = '.'

/-- What can bound a slice: a number or a name. -/
def IsBound (text : List Char) : Prop :=
  IsDecimal text ∨ isIdentifier text

/-- An array and its subscript between two texts. -/
def subscripted (before array subscript after : String) : String :=
  before ++ " " ++ array ++ "[" ++ subscript ++ "] " ++ after

/-- Behind a text that ends in code the parameters go on anew. -/
theorem Whole.parametersOfText_append {as bs : List Char} {c : Char} (h : Whole as)
    (hc : isInert c) (hn : c ≠ ':') : parametersOfText (as ++ c :: bs) =
      (parametersOfText as ++ parametersOfText bs).eraseDups := by
  rw [← parametersFrom_scan, h.scan_append hc,
    parametersFrom_append_code (isIdentifierRest_of_isInert hc) hn, ← parametersFrom_scan as,
    ← parametersFrom_scan bs, eraseDups_append_eraseDups, eraseDups_eraseDups_append]

/-- Without delimiters a text is code. -/
theorem parametersOfText_of_plain {cs : List Char} (h : ∀ c ∈ cs, isPlain c) :
    parametersOfText cs = (parametersOfCode none cs).eraseDups := by
  have hcode : parametersFrom none (cs.map .code ++ []) = parametersOfCode none cs ++ [] :=
    parametersFrom_map_code_append rfl cs none
  rw [List.append_nil, List.append_nil] at hcode
  rw [← parametersFrom_scan, scan_of_plain h, hcode]

/-- Code without a colon does not matter in front of other code. -/
theorem parametersOfCode_append {cs : List Char} (h : ':' ∉ cs) {b : Option Char}
    (hb : b ≠ some ':') (ds : List Char) :
    parametersOfCode b (cs ++ ds) = parametersOfCode none ds := by
  induction cs generalizing b with
  | nil => exact parametersOfCode_congr fun _ => hb
  | cons c cs ih =>
    obtain ⟨hc, hcs⟩ := List.ne_and_not_mem_of_not_mem_cons h
    rw [List.cons_append, parametersOfCode, if_neg fun hif => hc hif.1.symm]
    exact ih hcs fun he => hc (Option.some.inj he).symm

theorem parametersOfCode_of_not_mem {cs : List Char} (h : ':' ∉ cs) :
    parametersOfCode none cs = [] := by
  simpa [parametersOfCode] using parametersOfCode_append h (b := none) (by simp) []

/-- One colon in code without others binds the identifier behind it. -/
theorem parametersOfCode_colon_between {cs ds : List Char} (hc : ':' ∉ cs) (hd : ':' ∉ ds) :
    parametersOfCode none (cs ++ ':' :: ds) = (identifierAt? ds).toList := by
  rw [parametersOfCode_append hc (by simp), parametersOfCode, if_pos ⟨rfl, by simp⟩,
    parametersOfCode_congr fun he => absurd (List.mem_of_mem_head? he) hd,
    parametersOfCode_of_not_mem hd, List.append_nil]

theorem isIdentifierStart_of_isDigit {c : Char} (h : c.isDigit) : isIdentifierStart c = false :=
  of_isAlphanum (p := fun c => c.isDigit → isIdentifierStart c = false) (by decide)
    (by simp [Char.isAlphanum, h]) h

/-- A bound consists of digits, letters, underscores and points. -/
theorem IsBound.all {text : List Char} (h : IsBound text) :
    ∀ c ∈ text, isIdentifierRest c || c == '.' := by
  intro c hc
  rcases h with ⟨-, hd⟩ | hi
  · rcases hd c hc with hd | rfl
    · simp [isIdentifierRest, Char.isAlphanum, hd]
    · decide
  · simp [all_rest_of_isIdentifier hi c hc]

theorem IsBound.isPlain {text : List Char} (h : IsBound text) : ∀ c ∈ text, isPlain c :=
  fun c hc => isPlain_of_all (p := fun c => isIdentifierRest c || c == '.') (by decide) (h.all c hc)

theorem IsBound.colon_not_mem {text : List Char} (h : IsBound text) : ':' ∉ text :=
  fun hm => absurd (h.all ':' hm) (by decide)

theorem identifierAt?_of_isDecimal {text : List Char} (h : IsDecimal text) :
    identifierAt? text = none := by
  obtain ⟨hne, hd⟩ := h
  obtain ⟨c, cs, rfl⟩ := List.exists_cons_of_ne_nil hne
  have hc : isIdentifierStart c = false := by
    rcases hd c List.mem_cons_self with hc | rfl
    · exact isIdentifierStart_of_isDigit hc
    · decide
  simp [identifierAt?, hc]

theorem identifierAt?_of_isIdentifier {text : List Char} (h : isIdentifier text) :
    identifierAt? text = some text := by
  cases text with
  | nil => cases h
  | cons c cs =>
    have hc : isIdentifierStart c := (Bool.and_eq_true_iff.mp h).1
    rw [identifierAt?, if_pos hc, List.takeWhile_eq_self_iff.mpr (all_rest_of_isIdentifier h)]

/-- A number is no name. -/
theorem IsDecimal.not_isIdentifier {text : List Char} (h : IsDecimal text) :
    ¬ isIdentifier text := by
  intro hi
  have hn := identifierAt?_of_isDecimal h
  rw [identifierAt?_of_isIdentifier hi] at hn
  cases hn

theorem parametersOfText_bound {text : List Char} (h : IsBound text) :
    parametersOfText text = [] := by
  rw [parametersOfText_of_plain h.isPlain, parametersOfCode_of_not_mem h.colon_not_mem]
  rfl

theorem isPlain_of_mem_bounds {lower upper : List Char} (hl : IsBound lower) (hu : IsBound upper) :
    ∀ c ∈ lower ++ ':' :: upper, isPlain c := by
  intro c hc
  rcases List.mem_append.mp hc with hc | hc
  · exact hl.isPlain c hc
  · rcases List.mem_cons.mp hc with rfl | hc
    · decide
    · exact hu.isPlain c hc

/-- The colon between two bounds binds the upper one. -/
theorem parametersOfText_bounds {lower upper : List Char} (hl : IsBound lower)
    (hu : IsBound upper) :
    parametersOfText (lower ++ ':' :: upper) = (identifierAt? upper).toList := by
  rw [parametersOfText_of_plain (isPlain_of_mem_bounds hl hu),
    parametersOfCode_colon_between hl.colon_not_mem hu.colon_not_mem]
  cases identifierAt? upper <;> rfl

/-- The parameters of the text in front, then those of the subscript, then those behind. -/
theorem parametersOfText_subscripted {before array subscript after : List Char}
    (hb : Whole before) (ha : isIdentifier array) (hs : ∀ c ∈ subscript, isPlain c) :
    parametersOfText (before ++ ' ' :: (array ++ '[' :: (subscript ++ ']' :: ' ' :: after))) =
      (parametersOfText before ++
        (parametersOfText subscript ++ parametersOfText after)).eraseDups := by
  have harray : parametersOfText array = [] := parametersOfText_bound (.inr ha)
  have hempty : parametersOfText [] = [] := parametersOfText_of_plain (by simp)
  have hafter : parametersOfText (' ' :: after) = parametersOfText after := by
    rw [← List.nil_append (' ' :: after), Whole.nil.parametersOfText_append isInert_space (by decide),
      hempty]
    exact eraseDups_of_nodup (nodup_eraseDups _)
  rw [hb.parametersOfText_append isInert_space (by decide),
    (whole_identifier ha).parametersOfText_append (by decide) (by decide), harray,
    (Whole.of_plain hs).parametersOfText_append (by decide) (by decide), hafter, List.nil_append,
    eraseDups_of_nodup (nodup_eraseDups _), eraseDups_append_eraseDups]

theorem parameters_subscripted {before array subscript after : String}
    (hb : Whole before.toList) (ha : isIdentifier array.toList)
    (hs : ∀ c ∈ subscript.toList, isPlain c) :
    parameters (subscripted before array subscript after) =
      (parameters before ++ (parameters subscript ++ parameters after)).eraseDups := by
  have ht : (subscripted before array subscript after).toList = before.toList ++ ' ' ::
      (array.toList ++ '[' :: (subscript.toList ++ ']' :: ' ' :: after.toList)) := by
    simp [subscripted]
  simp only [parameters]
  rw [ht, parametersOfText_subscripted hb ha hs, ← eraseDups_map fun _ _ h => String.ofList_injective h,
    List.map_append, List.map_append]

/-- A slice has the parameters of its lower bound as a subscript exactly when its upper bound is a
number, or a name that is a parameter in front or would be the next new one behind. Any other name is
a parameter more. -/
theorem parameters_slice_eq_iff {before array lower upper after : String}
    (closed : ∀ r, .region r ∈ Segment.ofText before.toList → r.terminated)
    (ended : ∀ r, (Segment.ofText before.toList).getLast? = some (.region r) →
      r.kind ≠ .lineComment)
    (named : isIdentifier array.toList) (low : IsBound lower.toList) (high : IsBound upper.toList) :
    parameters (subscripted before array (lower ++ ":" ++ upper) after) =
        parameters (subscripted before array lower after) ↔
      IsDecimal upper.toList ∨ upper ∈ parameters before ∨
        (parameters after).find? (fun name => !(parameters before).contains name) = some upper := by
  have hbefore : Whole before.toList := ⟨closed_scan_of closed, not_endsInLineComment_scan ended⟩
  have hbounds : (lower ++ ":" ++ upper).toList = lower.toList ++ ':' :: upper.toList := by simp
  have hplain : ∀ c ∈ (lower ++ ":" ++ upper).toList, isPlain c := by
    rw [hbounds]
    exact isPlain_of_mem_bounds low high
  have hslice : parameters (lower ++ ":" ++ upper) =
      (identifierAt? upper.toList).toList.map String.ofList := by
    rw [parameters, hbounds, parametersOfText_bounds low high]
  have hlower : parameters lower = [] := by
    rw [parameters, parametersOfText_bound low, List.map_nil]
  rw [parameters_subscripted hbefore named hplain,
    parameters_subscripted hbefore named low.isPlain, hslice, hlower, List.nil_append]
  rcases high with hd | hi
  · simp [identifierAt?_of_isDecimal hd, hd]
  · have hn : ¬ IsDecimal upper.toList := fun hd => hd.not_isIdentifier hi
    rw [identifierAt?_of_isIdentifier hi, Option.toList_some, List.map_singleton,
      String.ofList_toList, List.singleton_append, eraseDups_append_cons_iff]
    simp only [hn, false_or]

theorem parameters_slice_eq_iff_numbered :
    parameters (subscripted "SELECT ':]' || :n /* [ */," "xs" ("lo" ++ ":" ++ "12") "= :k") =
        parameters (subscripted "SELECT ':]' || :n /* [ */," "xs" "lo" "= :k") ↔
      IsDecimal "12".toList ∨ "12" ∈ parameters "SELECT ':]' || :n /* [ */," ∨
        (parameters "= :k").find?
          (fun name => !(parameters "SELECT ':]' || :n /* [ */,").contains name) = some "12" := by
  have hsegments : Segment.ofText "SELECT ':]' || :n /* [ */,".toList = [.code "SELECT ".toList,
      .region ⟨.singleQuoted, "':]'".toList, true⟩, .code " || :n ".toList,
      .region ⟨.blockComment, "/* [ */".toList, true⟩, .code [',']] := by decide +kernel
  apply parameters_slice_eq_iff
  · rw [hsegments]
    simp
  · rw [hsegments]
    simp
  · decide
  · exact .inr (by decide)
  · exact .inl ⟨by decide, by simp⟩

/-- The upper bound of a slice is a parameter when it is a name. -/
theorem not_all_slices_unbound :
    ¬ ∀ before array lower upper after : String,
      (∀ r, .region r ∈ Segment.ofText before.toList → r.terminated) →
      (∀ r, (Segment.ofText before.toList).getLast? = some (.region r) → r.kind ≠ .lineComment) →
      isIdentifier array.toList → IsBound lower.toList → IsBound upper.toList →
        parameters (subscripted before array (lower ++ ":" ++ upper) after) =
          parameters (subscripted before array lower after) := by
  intro h
  have hsegments : Segment.ofText "SELECT".toList = [.code "SELECT".toList] := by decide +kernel
  have hsame : parameters (subscripted "SELECT" "a" ("1" ++ ":" ++ "n") "FROM t") =
      parameters (subscripted "SELECT" "a" "1" "FROM t") := by
    apply h
    · rw [hsegments]
      simp
    · rw [hsegments]
      simp
    · decide
    · exact .inl ⟨by decide, by simp⟩
    · exact .inr (by decide)
  exact absurd hsame (by decide +kernel)

end NamedSql
