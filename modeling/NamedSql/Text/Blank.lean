namespace NamedSql

/-- The characters with the Unicode property White_Space. -/
def isBlank (c : Char) : Bool :=
  let n := c.toNat
  (0x9 ≤ n && n ≤ 0xD) || n == 0x20 || n == 0x85 || n == 0xA0 || n == 0x1680 ||
    (0x2000 ≤ n && n ≤ 0x200A) || n == 0x2028 || n == 0x2029 || n == 0x202F || n == 0x205F ||
    n == 0x3000

/-- `cs` without the blanks it begins with. -/
def trimStart (cs : List Char) : List Char :=
  cs.dropWhile isBlank

/-- `cs` without the characters in `p` that it ends with. -/
def dropEndWhile (p : Char → Bool) : List Char → List Char
  | [] => []
  | c :: cs =>
    match dropEndWhile p cs with
    | [] => if p c then [] else [c]
    | d :: ds => c :: d :: ds

/-- `cs` without the blanks it ends with. -/
def trimEnd (cs : List Char) : List Char :=
  dropEndWhile isBlank cs

/-- `cs` without the blanks at its two ends. -/
def trim (cs : List Char) : List Char :=
  trimEnd (trimStart cs)

/-- The dropped end holds characters in `p` only. -/
theorem dropEndWhile_append (p : Char → Bool) (cs : List Char) :
    ∃ dropped, cs = dropEndWhile p cs ++ dropped ∧ ∀ c ∈ dropped, p c := by
  induction cs with
  | nil => exact ⟨[], rfl, by simp⟩
  | cons c cs ih =>
    obtain ⟨dropped, hcs, hp⟩ := ih
    simp only [dropEndWhile]
    split
    · rename_i h
      rw [h, List.nil_append] at hcs
      split
      · exact ⟨c :: dropped, by simp [← hcs], by simpa [*] using hp⟩
      · exact ⟨dropped, by simp [← hcs], hp⟩
    · rename_i h
      exact ⟨dropped, by rw [h] at hcs; simp [← hcs], hp⟩

/-- What is left does not end in `p`. -/
theorem not_of_getLast?_dropEndWhile {p : Char → Bool} {cs : List Char} {c : Char}
    (h : (dropEndWhile p cs).getLast? = some c) : p c = false := by
  induction cs with
  | nil => simp [dropEndWhile] at h
  | cons d ds ih =>
    simp only [dropEndWhile] at h
    split at h
    · split at h
      · simp at h
      · simp only [List.getLast?_singleton, Option.some.injEq] at h
        subst h; simpa using ‹¬p d = true›
    · rename_i e es he
      rw [he] at ih
      exact ih (by simpa using h)

theorem dropEndWhile_eq_self {p : Char → Bool} {cs : List Char}
    (h : ∀ c, cs.getLast? = some c → p c = false) : dropEndWhile p cs = cs := by
  induction cs with
  | nil => rfl
  | cons c cs ih =>
    cases cs with
    | nil => simp [dropEndWhile, h c rfl]
    | cons d ds => rw [dropEndWhile, ih (fun e he => h e (by simpa using he))]

theorem trimEnd_trimEnd (cs : List Char) : trimEnd (trimEnd cs) = trimEnd cs :=
  dropEndWhile_eq_self fun _ h => not_of_getLast?_dropEndWhile h

/-- Trimming the end keeps a first character that is not blank. -/
theorem trimStart_trim (cs : List Char) : trimStart (trim cs) = trim cs := by
  unfold trim
  generalize hs : trimStart cs = ds
  cases ds with
  | nil => rfl
  | cons d ds =>
    have hd : isBlank d = false := by
      have := List.head?_dropWhile_not isBlank cs
      rw [show cs.dropWhile isBlank = d :: ds from hs] at this
      simpa using this
    have : ∃ es, trimEnd (d :: ds) = d :: es := by
      simp only [trimEnd, dropEndWhile]
      split
      · exact ⟨[], by simp [hd]⟩
      · exact ⟨_, rfl⟩
    obtain ⟨es, hes⟩ := this
    simp [hes, trimStart, hd]

@[simp] theorem trim_trim (cs : List Char) : trim (trim cs) = trim cs :=
  calc trim (trim cs) = trimEnd (trimStart (trim cs)) := rfl
    _ = trimEnd (trim cs) := by rw [trimStart_trim]
    _ = trim cs := trimEnd_trimEnd _

end NamedSql
