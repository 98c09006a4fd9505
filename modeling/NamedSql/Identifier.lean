namespace NamedSql

/-- A letter or an underscore. -/
def isIdentifierStart (c : Char) : Bool :=
  c.isAlpha || c == '_'

/-- A letter, a digit or an underscore. -/
def isIdentifierRest (c : Char) : Bool :=
  c.isAlphanum || c == '_'

/-- A character of an SQL name, in which a dollar sign may stand as well. -/
def isNameChar (c : Char) : Bool :=
  isIdentifierRest c || c == '$'

/-- A letter or an underscore, then letters, digits and underscores. -/
def isIdentifier : List Char → Bool
  | [] => false
  | c :: cs => isIdentifierStart c && cs.all isIdentifierRest

theorem toNat_of_isAlphanum {c : Char} (h : c.isAlphanum) : 48 ≤ c.toNat ∧ c.toNat ≤ 122 := by
  delta Char.isAlphanum Char.isAlpha Char.isUpper Char.isLower Char.isDigit at h
  simp only [Bool.or_eq_true, Bool.and_eq_true, decide_eq_true_eq, UInt32.le_iff_toNat_le,
    ge_iff_le] at h
  have : c.toNat = c.val.toNat := rfl
  have : 'A'.val.toNat = 65 := rfl
  have : 'Z'.val.toNat = 90 := rfl
  have : 'a'.val.toNat = 97 := rfl
  have : 'z'.val.toNat = 122 := rfl
  have : '0'.val.toNat = 48 := rfl
  have : '9'.val.toNat = 57 := rfl
  omega

/-- What holds of all characters below 128 holds of each letter and digit. -/
theorem of_isAlphanum {p : Char → Prop} (h : ∀ n : Fin 128, p (Char.ofNat n)) {c : Char}
    (hc : c.isAlphanum) : p c := by
  have := h ⟨c.toNat, Nat.lt_of_le_of_lt (toNat_of_isAlphanum hc).2 (by decide)⟩
  rwa [Char.ofNat_toNat] at this

theorem isDigit_eq_false_of_isAlpha {c : Char} (h : c.isAlpha) : c.isDigit = false :=
  of_isAlphanum (p := fun c => c.isAlpha → c.isDigit = false) (by decide)
    (by simp [Char.isAlphanum, h]) h

theorem toNat_of_isIdentifierRest {c : Char} (h : isIdentifierRest c) :
    48 ≤ c.toNat ∧ c.toNat ≤ 122 := by
  rcases Bool.or_eq_true_iff.mp h with h | h
  · exact toNat_of_isAlphanum h
  · rw [eq_of_beq h]
    decide

theorem isIdentifierRest_of_start {c : Char} (h : isIdentifierStart c) : isIdentifierRest c := by
  simp only [isIdentifierStart, isIdentifierRest, Char.isAlphanum, Bool.or_eq_true] at *
  exact h.elim (fun h => .inl (.inl h)) .inr

theorem isNameChar_of_rest {c : Char} (h : isIdentifierRest c) : isNameChar c := by
  simp [isNameChar, h]

theorem all_rest_of_isIdentifier {cs : List Char} (h : isIdentifier cs) :
    ∀ c ∈ cs, isIdentifierRest c := by
  cases cs with
  | nil => simp
  | cons c cs =>
    simp only [isIdentifier, Bool.and_eq_true, List.all_eq_true] at h
    simpa [isIdentifierRest_of_start h.1] using h.2

end NamedSql
