namespace NamedSql

/-- Whether a character can command a terminal: bell, backspace, form feed, escape, delete, and the
controls from U+0080 to U+009F. Tabs and line breaks are not among them. -/
def isTerminalCommand (c : Char) : Bool :=
  c == '\x07' || c == '\x08' || c == '\x0c' || c == '\x1b' || c == '\x7f' ||
    (0x80 ≤ c.toNat && c.toNat < 0xA0)

/-- A command spelled out in hexadecimal, and any other character as it is. -/
def spellCommand (c : Char) : List Char :=
  if isTerminalCommand c then
    let digits := [(c.toNat / 16).digitChar, (c.toNat % 16).digitChar]
    if c.toNat < 0x80 then ['\\', 'x'] ++ digits
    else ['\\', 'u', '\x7b'] ++ digits ++ ['\x7d']
  else [c]

/-- The text with its commands spelled out. -/
def spellCommands (text : String) : String :=
  String.ofList (text.toList.flatMap spellCommand)

theorem toNat_lt_of_isTerminalCommand {c : Char} (h : isTerminalCommand c) : c.toNat < 0xA0 := by
  simp only [isTerminalCommand, Bool.or_eq_true, beq_iff_eq, Bool.and_eq_true,
    decide_eq_true_eq] at h
  rcases h with ((((rfl | rfl) | rfl) | rfl) | rfl) | h
  · decide
  · decide
  · decide
  · decide
  · decide
  · exact h.2

theorem not_isTerminalCommand_digitChar {n : Nat} (h : n < 16) :
    isTerminalCommand n.digitChar = false := by
  have all : ∀ k : Fin 16, isTerminalCommand k.val.digitChar = false := by decide
  exact all ⟨n, h⟩

theorem not_isTerminalCommand_of_mem_spellCommand {c d : Char} (h : d ∈ spellCommand c) :
    isTerminalCommand d = false := by
  by_cases hc : isTerminalCommand c
  · have hn := toNat_lt_of_isTerminalCommand hc
    have high := not_isTerminalCommand_digitChar (show c.toNat / 16 < 16 by omega)
    have low := not_isTerminalCommand_digitChar (show c.toNat % 16 < 16 by omega)
    simp only [spellCommand, hc, ↓reduceIte] at h
    split at h
    · simp only [List.cons_append, List.nil_append, List.mem_cons, List.not_mem_nil, or_false] at h
      rcases h with rfl | rfl | rfl | rfl
      · decide
      · decide
      · exact high
      · exact low
    · simp only [List.cons_append, List.nil_append, List.mem_cons, List.not_mem_nil, or_false] at h
      rcases h with rfl | rfl | rfl | rfl | rfl | rfl
      · decide
      · decide
      · decide
      · exact high
      · exact low
      · decide
  · simp only [spellCommand, hc] at h
    obtain rfl : d = c := by simpa using h
    simpa using hc

theorem not_isTerminalCommand_of_mem_spellCommands {text : String} {d : Char}
    (h : d ∈ (spellCommands text).toList) : isTerminalCommand d = false := by
  simp only [spellCommands, String.toList_ofList, List.mem_flatMap] at h
  obtain ⟨c, _, hd⟩ := h
  exact not_isTerminalCommand_of_mem_spellCommand hd

end NamedSql
