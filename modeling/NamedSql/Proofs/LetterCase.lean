import Mathlib
import NamedSql.Classification
import NamedSql.Text.Blank

namespace NamedSql

theorem toUpper_eq_self {c : Char} (h : ¬ c.isAlphanum) : c.toUpper = c :=
  Char.toUpper_eq_of_not_isLower fun hl => h (by simp [Char.isAlphanum, Char.isAlpha, hl])

/-- What is the same for each ASCII character and its upper case is the same for every character. -/
theorem apply_toUpper {α : Type} {f : Char → α}
    (h : ∀ n : Fin 128, f (Char.ofNat n).toUpper = f (Char.ofNat n)) (c : Char) :
    f c.toUpper = f c := by
  by_cases hc : c.isAlphanum
  · exact of_isAlphanum (p := fun c => f c.toUpper = f c) h hc
  · rw [toUpper_eq_self hc]

/-- A character that is no letter and no digit is the upper case of itself only. -/
theorem toUpper_eq_iff {c d : Char} (hd : d.isAlphanum = false) : c.toUpper = d ↔ c = d := by
  by_cases hc : c.isAlphanum
  · have hu : c.toUpper.isAlphanum = c.isAlphanum := apply_toUpper (by decide) c
    constructor
    · rintro rfl
      simp [hu, hc] at hd
    · rintro rfl
      simp [hc] at hd
  · rw [toUpper_eq_self hc]

theorem isIdentifierStart_toUpper : ∀ c : Char, isIdentifierStart c.toUpper = isIdentifierStart c :=
  apply_toUpper (by decide)

theorem isIdentifierRest_toUpper : ∀ c : Char, isIdentifierRest c.toUpper = isIdentifierRest c :=
  apply_toUpper (by decide)

theorem isNameChar_toUpper : ∀ c : Char, isNameChar c.toUpper = isNameChar c :=
  apply_toUpper (by decide)

theorem inWord_toUpper : ∀ c : Char, Token.inWord c.toUpper = Token.inWord c :=
  apply_toUpper (by decide)

theorem ofChar?_toUpper : ∀ c : Char, Token.ofChar? c.toUpper = Token.ofChar? c :=
  apply_toUpper (by decide)

theorem isBlank_toUpper : ∀ c : Char, isBlank c.toUpper = isBlank c :=
  apply_toUpper (by decide)

namespace Keyword

@[simp] theorem upper_upper (word : List Char) : upper (upper word) = upper word := by
  simp [upper]

@[simp] theorem ofWord?_upper (word : List Char) : ofWord? (upper word) = ofWord? word := by
  simp only [ofWord?, upper_upper]

@[simp] theorem isReturning_upper (word : List Char) :
    isReturning (upper word) = isReturning word := by
  simp only [isReturning, upper_upper]

end Keyword

namespace Token

/-- The token with a word in upper case. -/
def upper : Token → Token
  | .word chars => .word (Keyword.upper chars)
  | t => t

end Token

variable (ts : List Token)

theorem leadingWord?_map_upper : leadingWord? (ts.map Token.upper) =
    (leadingWord? ts).map fun found => (Keyword.upper found.1, found.2.map Token.upper) := by
  induction ts with
  | nil => rfl
  | cons t ts ih =>
    cases t with
    | openParen => exact ih
    | closeParen => rfl
    | other => rfl
    | word chars => rfl

theorem verbAfterTables?_map_upper (depth : Nat) :
    verbAfterTables? depth (ts.map Token.upper) =
      (verbAfterTables? depth ts).map fun found => (found.1, found.2.map Token.upper) := by
  induction ts generalizing depth with
  | nil => rfl
  | cons t ts ih =>
    cases t with
    | openParen => exact ih _
    | closeParen => exact ih _
    | other => exact ih _
    | word chars =>
      rw [List.map_cons, Token.upper, verbAfterTables?, verbAfterTables?, Keyword.ofWord?_upper]
      split
      · rfl
      · exact ih depth

theorem hasReturningAt_map_upper (depth : Int) :
    hasReturningAt depth (ts.map Token.upper) = hasReturningAt depth ts := by
  induction ts generalizing depth with
  | nil => rfl
  | cons t ts ih =>
    cases t with
    | openParen => exact ih _
    | closeParen => exact ih _
    | other => exact ih _
    | word chars =>
      rw [List.map_cons, Token.upper, hasReturningAt, hasReturningAt, Keyword.isReturning_upper, ih]

theorem mainVerb?_map_upper : mainVerb? (ts.map Token.upper) =
    (mainVerb? ts).map fun found => (found.1, found.2.map Token.upper) := by
  rw [mainVerb?, mainVerb?, leadingWord?_map_upper]
  cases leadingWord? ts with
  | none => rfl
  | some found =>
    simp only [Option.bind_eq_bind, Option.map_some, Option.bind_some, Keyword.ofWord?_upper]
    cases Keyword.ofWord? found.1 with
    | none => rfl
    | some keyword =>
      simp only [Option.bind_some, verbAfterTables?_map_upper]
      split <;> rfl

theorem Mode.ofTokens_map_upper : ofTokens (ts.map Token.upper) = ofTokens ts := by
  unfold ofTokens
  rw [mainVerb?_map_upper]
  cases mainVerb? ts with
  | none => rfl
  | some found => simp only [Option.map_some, hasReturningAt_map_upper]

theorem hasReturningOfTokens_map_upper :
    hasReturningOfTokens (ts.map Token.upper) = hasReturningOfTokens ts := by
  unfold hasReturningOfTokens
  rw [mainVerb?_map_upper, Option.any_map]
  congr 1
  funext found
  exact hasReturningAt_map_upper found.2 0

end NamedSql
