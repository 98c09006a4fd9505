import NamedSql.Segment

namespace NamedSql

/-- The identifier that the text begins with, as long as possible. -/
def identifierAt? (text : List Char) : Option (List Char) :=
  match text with
  | [] => none
  | c :: _ => if isIdentifierStart c then some (text.takeWhile isIdentifierRest) else none

/-- The names after the single colons of a stretch of code, in order and with repetitions. `before`
is the character in front of the stretch. -/
def parametersOfCode (before : Option Char) : List Char → List (List Char)
  | [] => []
  | c :: rest =>
    let later := parametersOfCode (some c) rest
    if c = ':' ∧ before ≠ some ':' then (identifierAt? rest).toList ++ later else later

/-- The parameters of a segment. A region has none. -/
def Segment.parameters : Segment → List (List Char)
  | .code chars => parametersOfCode none chars
  | .region _ => []

/-- The parameters of a text, each once, in the order of their first appearance. -/
def parametersOfText (text : List Char) : List (List Char) :=
  ((Segment.ofText text).flatMap Segment.parameters).eraseDups

/-- The parameters of a statement, each once, in the order of their first appearance. -/
def parameters (sql : String) : List String :=
  (parametersOfText sql.toList).map String.ofList

theorem isIdentifier_of_identifierAt? {text name : List Char} (h : identifierAt? text = some name) :
    isIdentifier name := by
  unfold identifierAt? at h
  split at h
  · simp at h
  · rename_i c rest
    simp only [Option.ite_none_right_eq_some, Option.some.injEq] at h
    rw [← h.2, List.takeWhile_cons_of_pos (isIdentifierRest_of_start h.1)]
    simp only [isIdentifier, h.1, Bool.true_and, List.all_takeWhile]

theorem isIdentifier_of_mem_parametersOfCode {before : Option Char} {code name : List Char}
    (h : name ∈ parametersOfCode before code) : isIdentifier name := by
  induction code generalizing before with
  | nil => simp [parametersOfCode] at h
  | cons c rest ih =>
    simp only [parametersOfCode] at h
    split at h
    · rcases List.mem_append.mp h with h | h
      · exact isIdentifier_of_identifierAt? (Option.mem_toList.mp h)
      · exact ih h
    · exact ih h

end NamedSql
