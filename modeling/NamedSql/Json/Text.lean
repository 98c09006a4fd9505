namespace NamedSql.Json

/-- The lower-case hexadecimal digit of a number below sixteen. -/
def hexDigit (n : Nat) : Char :=
  n.digitChar

/-- A character as it is written between the quotes of a string. -/
def escape (c : Char) : List Char :=
  if c = '"' then ['\\', '"']
  else if c = '\\' then ['\\', '\\']
  else if c = '\x08' then ['\\', 'b']
  else if c = '\t' then ['\\', 't']
  else if c = '\n' then ['\\', 'n']
  else if c = '\x0c' then ['\\', 'f']
  else if c = '\r' then ['\\', 'r']
  else if c.toNat < 0x20 then
    ['\\', 'u', '0', '0', hexDigit (c.toNat / 16), hexDigit (c.toNat % 16)]
  else [c]

/-- The value of a hexadecimal digit in either case. -/
def hexValue? (c : Char) : Option Nat :=
  if c.isDigit then some (c.toNat - '0'.toNat)
  else if 'a' ≤ c ∧ c ≤ 'f' then some (c.toNat - 'a'.toNat + 10)
  else if 'A' ≤ c ∧ c ≤ 'F' then some (c.toNat - 'A'.toNat + 10)
  else none

/-- The number that four hexadecimal digits spell, and what follows them. -/
def hexFour? : List Char → Option (Nat × List Char)
  | a :: b :: c :: d :: rest => do
    let a ← hexValue? a
    let b ← hexValue? b
    let c ← hexValue? c
    let d ← hexValue? d
    some (a * 4096 + b * 256 + c * 16 + d, rest)
  | _ => none

/-- The second half of a surrogate pair whose first half is `high`. -/
def lowHalf? (high : Nat) : List Char → Option (Char × List Char)
  | '\\' :: 'u' :: rest => do
    let (low, rest) ← hexFour? rest
    if 0xDC00 ≤ low ∧ low < 0xE000 then
      some (Char.ofNat (0x10000 + (high - 0xD800) * 0x400 + (low - 0xDC00)), rest)
    else none
  | _ => none

/-- The character that the text after a backslash stands for, and what follows. Half of a surrogate
pair stands for none. -/
def unescape? : List Char → Option (Char × List Char)
  | '"' :: rest => some ('"', rest)
  | '\\' :: rest => some ('\\', rest)
  | '/' :: rest => some ('/', rest)
  | 'b' :: rest => some ('\x08', rest)
  | 't' :: rest => some ('\t', rest)
  | 'n' :: rest => some ('\n', rest)
  | 'f' :: rest => some ('\x0c', rest)
  | 'r' :: rest => some ('\r', rest)
  | 'u' :: rest => do
    let (code, rest) ← hexFour? rest
    if 0xD800 ≤ code ∧ code < 0xDC00 then lowHalf? code rest
    else if 0xDC00 ≤ code ∧ code < 0xE000 then none
    else some (Char.ofNat code, rest)
  | _ => none

theorem length_lt_of_hexFour? {text rest : List Char} {n : Nat}
    (h : hexFour? text = some (n, rest)) : rest.length < text.length := by
  unfold hexFour? at h
  split at h
  · simp only [Option.bind_eq_bind, Option.bind_eq_some_iff, Option.some.injEq,
      Prod.mk.injEq] at h
    obtain ⟨_, _, _, _, _, _, _, _, -, rfl⟩ := h
    simp only [List.length_cons]
    omega
  · simp at h

theorem length_lt_of_lowHalf? {high : Nat} {text rest : List Char} {c : Char}
    (h : lowHalf? high text = some (c, rest)) : rest.length < text.length := by
  unfold lowHalf? at h
  split at h
  · simp only [Option.bind_eq_bind, Option.bind_eq_some_iff] at h
    obtain ⟨⟨low, r⟩, hr, h⟩ := h
    simp only [Option.ite_none_right_eq_some, Option.some.injEq, Prod.mk.injEq] at h
    have := length_lt_of_hexFour? hr
    simp only [List.length_cons, ← h.2.2]
    omega
  · simp at h

theorem length_lt_of_unescape? {text rest : List Char} {c : Char}
    (h : unescape? text = some (c, rest)) : rest.length < text.length := by
  unfold unescape? at h
  split at h
  case h_9 =>
    simp only [Option.bind_eq_bind, Option.bind_eq_some_iff] at h
    obtain ⟨⟨code, r⟩, hr, h⟩ := h
    have hlt := length_lt_of_hexFour? hr
    simp only at h
    split at h
    · have := length_lt_of_lowHalf? h
      simp only [List.length_cons]
      omega
    · split at h
      · simp at h
      · obtain ⟨-, rfl⟩ := Prod.mk.inj (Option.some.inj h)
        simp only [List.length_cons]
        omega
  case h_10 => simp at h
  all_goals
    obtain ⟨-, rfl⟩ := Prod.mk.inj (Option.some.inj h)
    simp

/-- The string that ends at the first quote of the text, and what follows that quote. A control
character cannot stand in it. -/
def readString? (text : List Char) : Option (List Char × List Char) :=
  match text with
  | [] => none
  | '"' :: rest => some ([], rest)
  | '\\' :: rest =>
    match h : unescape? rest with
    | none => none
    | some (c, after) =>
      have := length_lt_of_unescape? h
      (readString? after).map fun (s, rest) => (c :: s, rest)
  | c :: rest =>
    if c.toNat < 0x20 then none else (readString? rest).map fun (s, rest) => (c :: s, rest)
termination_by text.length

theorem length_lt_of_readString? {text s rest : List Char}
    (h : readString? text = some (s, rest)) : rest.length < text.length := by
  fun_induction readString? text generalizing s rest with
  | case1 => simp at h
  | case2 => obtain ⟨-, rfl⟩ := Prod.mk.inj (Option.some.inj h); simp
  | case3 => simp at h
  | case4 _ _ _ hu _ ih =>
    obtain ⟨⟨t, r⟩, ht, htr⟩ := Option.map_eq_some_iff.mp h
    obtain ⟨-, rfl⟩ := Prod.mk.inj htr
    have := ih ht
    have := length_lt_of_unescape? hu
    simp only [List.length_cons]
    omega
  | case5 => simp at h
  | case6 _ _ _ _ _ ih =>
    obtain ⟨⟨t, r⟩, ht, htr⟩ := Option.map_eq_some_iff.mp h
    obtain ⟨-, rfl⟩ := Prod.mk.inj htr
    have := ih ht
    simp only [List.length_cons]
    omega

theorem hexValue?_hexDigit {n : Nat} (h : n < 16) : hexValue? (hexDigit n) = some n := by
  have all : ∀ k : Fin 16, hexValue? (hexDigit k.val) = some k.val := by decide
  exact all ⟨n, h⟩

theorem readString?_backslash {text rest : List Char} {c : Char}
    (h : unescape? text = some (c, rest)) :
    readString? ('\\' :: text) = (readString? rest).map fun (s, rest) => (c :: s, rest) := by
  rw [readString?]
  · split
    · simp_all
    · rename_i h'
      rw [h] at h'
      obtain ⟨rfl, rfl⟩ := Prod.mk.inj (Option.some.inj h')
      rfl

theorem readString?_plain {c : Char} (hq : c ≠ '"') (hb : c ≠ '\\') (hc : ¬c.toNat < 0x20)
    (rest : List Char) :
    readString? (c :: rest) = (readString? rest).map fun (s, rest) => (c :: s, rest) := by
  rw [readString?]
  · rw [if_neg hc]
  · exact fun h => hq h
  · exact fun h => hb h

theorem hexFour?_control {n : Nat} (h : n < 0x20) (rest : List Char) :
    hexFour? ('0' :: '0' :: hexDigit (n / 16) :: hexDigit (n % 16) :: rest) = some (n, rest) := by
  have h1 : hexValue? (hexDigit (n / 16)) = some (n / 16) := hexValue?_hexDigit (by omega)
  have h2 : hexValue? (hexDigit (n % 16)) = some (n % 16) := hexValue?_hexDigit (by omega)
  have h0 : hexValue? '0' = some 0 := by decide
  simp only [hexFour?, h0, h1, h2, Option.bind_eq_bind, Option.bind_some, Option.some.injEq,
    Prod.mk.injEq, and_true]
  omega

/-- Reading takes back what writing one character gave. -/
theorem readString?_escape_append (c : Char) (text : List Char) :
    readString? (escape c ++ text) = (readString? text).map fun (s, rest) => (c :: s, rest) := by
  unfold escape
  split
  · subst c; exact readString?_backslash rfl
  · split
    · subst c; exact readString?_backslash rfl
    · split
      · subst c; exact readString?_backslash rfl
      · split
        · subst c; exact readString?_backslash rfl
        · split
          · subst c; exact readString?_backslash rfl
          · split
            · subst c; exact readString?_backslash rfl
            · split
              · subst c; exact readString?_backslash rfl
              · split
                · rename_i h
                  refine readString?_backslash ?_
                  show unescape? ('u' :: '0' :: '0' :: _ :: _ :: text) = _
                  simp only [unescape?, hexFour?_control h, Option.bind_eq_bind, Option.bind_some]
                  rw [if_neg (by omega), if_neg (by omega), Char.ofNat_toNat]
                · rename_i hq hb _ _ _ _ _ hc
                  exact readString?_plain hq hb hc text

/-- Reading takes back what writing gave. -/
theorem readString?_flatMap_escape (s rest : List Char) :
    readString? (s.flatMap escape ++ '"' :: rest) = some (s, rest) := by
  induction s with
  | nil => rw [List.flatMap_nil, List.nil_append, readString?]
  | cons c cs ih =>
    rw [List.flatMap_cons, List.append_assoc, readString?_escape_append, ih]
    rfl
end NamedSql.Json
