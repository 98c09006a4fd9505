import NamedSql.Identifier
import NamedSql.Text.Blank

namespace NamedSql

/-- The text without a pair of double quotes around it. -/
def unquote (text : List Char) : List Char :=
  match text with
  | '"' :: rest =>
    match rest.getLast? with
    | some '"' => rest.dropLast
    | _ => text
  | _ => text

/-- Joins the runs of ASCII letters and digits, each with its first letter in upper case. `atStart`
says whether the next character begins a run. -/
def joinCapitalized (atStart : Bool) : List Char → List Char
  | [] => []
  | c :: cs =>
    if c.isAlphanum then (if atStart then c.toUpper else c) :: joinCapitalized false cs
    else joinCapitalized true cs

/-- The class name for a file with the given stem. A name that would begin with a digit gets a
letter in front. -/
def className (stem : String) : String :=
  match joinCapitalized true (unquote (trim stem.toList)) with
  | [] => "Queries"
  | c :: cs => String.ofList (if c.isDigit then 'T' :: c :: cs else c :: cs)

/-- The name of the statement with the given number when nothing names it. -/
def fallbackName (ordinal : Nat) : String :=
  "statement_" ++ toString ordinal

theorem isAlphanum_toUpper {c : Char} (h : c.isAlphanum) : c.toUpper.isAlphanum :=
  of_isAlphanum (p := fun c => c.isAlphanum → c.toUpper.isAlphanum) (by decide) h h

theorem isAlphanum_of_mem_joinCapitalized {atStart : Bool} {cs : List Char} {c : Char}
    (h : c ∈ joinCapitalized atStart cs) : c.isAlphanum := by
  induction cs generalizing atStart with
  | nil => simp [joinCapitalized] at h
  | cons d ds ih =>
    simp only [joinCapitalized] at h
    split at h
    · rename_i hd
      rcases List.mem_cons.mp h with rfl | h
      · split
        · exact isAlphanum_toUpper hd
        · exact hd
      · exact ih h
    · exact ih h

/-- A class name made from a file name is an identifier. -/
theorem isIdentifier_className (stem : String) : isIdentifier (className stem).toList := by
  unfold className
  split
  · decide
  · rename_i c cs h
    have hall : ∀ d ∈ c :: cs, d.isAlphanum := fun d hd =>
      isAlphanum_of_mem_joinCapitalized (h ▸ hd)
    have hrest : cs.all isIdentifierRest := by
      simp only [List.all_eq_true, isIdentifierRest, Bool.or_eq_true]
      exact fun d hd => .inl (hall d (List.mem_cons_of_mem _ hd))
    have hc : c.isAlphanum := hall c List.mem_cons_self
    rw [String.toList_ofList]
    split
    · simp [isIdentifier, isIdentifierStart, isIdentifierRest, hc, hrest]
    · rename_i hd
      have ha : c.isAlpha := by
        simpa [Char.isAlphanum, hd] using hc
      simp [isIdentifier, isIdentifierStart, ha, hrest]

end NamedSql
