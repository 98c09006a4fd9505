import NamedSql.Proofs.ManifestNames
import NamedSql.Report

namespace NamedSql

namespace Report

/-- What a row tells about its entry. -/
structure Row where
  ordinal : Nat
  name : String
  line : Nat
  mode : Mode
  family : Family
  parameters : List String
  hasReturning : Bool
deriving DecidableEq

def Row.ofEntry (entry : Manifest.Entry) : Row where
  ordinal := entry.ordinal
  name := entry.name
  line := entry.line
  mode := entry.mode
  family := entry.family
  parameters := entry.parameters
  hasReturning := entry.hasReturning

/-- The number that decimal digits spell. -/
def number? (text : String) : Option Nat :=
  if text ≠ "" ∧ text.toList.all Char.isDigit then some (Nat.ofDigitChars 10 text.toList 0)
  else none

/-- Of the parts between quotes the quoted ones, which are every second. -/
def quotedParts : List (List Char) → List (List Char)
  | _ :: part :: rest => part :: quotedParts rest
  | _ => []

/-- The parameters in a cell, which stand between backticks. -/
def parametersOfCell (cell : String) : List String :=
  (quotedParts (cell.toList.splitOn '\x60')).map String.ofList

/-- Whether the remark in a cell is about a RETURNING clause. There is no other remark. -/
def returningOfCell? (cell : String) : Option Bool :=
  if cell = "RETURNING" then some true
  else if cell = "" then some false
  else none

/-- Reads the texts of seven cells. -/
def Row.ofCells? : List String → Option Row
  | [ordinal, name, line, mode, family, parameters, notes] => do
    return {
      ordinal := ← number? ordinal
      name := name
      line := ← number? line
      mode := ← Mode.ofLabel? mode
      family := ← Family.ofLabel? family
      parameters := parametersOfCell parameters
      hasReturning := ← returningOfCell? notes }
  | _ => none

/-- The text of a cell, which is all of it but the space at either end. -/
def cellText (cell : List Char) : String :=
  String.ofList (cell.drop 1).dropLast

/-- The bars of the line part it into seven cells that tell about the entry. Nothing is in front of
the first bar or behind the last. -/
def Tells (entry : Manifest.Entry) (line : List Char) : Prop :=
  ∃ cells : List (List Char), line.splitOn '|' = [] :: cells ++ [[]] ∧ cells.length = 7 ∧
    Row.ofCells? (cells.map cellText) = some (Row.ofEntry entry)

theorem splitOn_flatMap_append {separator : Char} {parts : List (List Char)}
    (h : ∀ part ∈ parts, separator ∉ part) :
    (parts.flatMap (· ++ [separator])).splitOn separator = parts ++ [[]] := by
  induction parts with
  | nil => rfl
  | cons part rest ih =>
    obtain ⟨hp, hr⟩ := List.forall_mem_cons.mp h
    rw [List.flatMap_cons, List.append_assoc, List.singleton_append,
      List.splitOn_append_cons_self_of_not_mem hp, ih hr]
    rfl

/-- A cell with a space on either side. -/
def padded (cell : String) : List Char :=
  ' ' :: (cell.toList ++ [' '])

/-- The line of a row: a bar, and then each cell with a bar behind it. -/
def rowLine (cells : List String) : List Char :=
  ([] :: cells.map padded).flatMap (· ++ ['|'])

@[simp] theorem cellText_padded (cell : String) : cellText (padded cell) = cell := by
  simp [cellText, padded]

theorem not_mem_padded {c : Char} {cell : String} (hc : c ≠ ' ') (h : c ∉ cell.toList) :
    c ∉ padded cell := by
  simp [padded, hc, h]

theorem rowLine_cons (cell : String) (rest : List String) :
    rowLine (cell :: rest) = '|' :: (padded cell ++ rowLine rest) := by
  simp [rowLine]

theorem row_cons_cons (cell next : String) (rest : List String) :
    row (cell :: next :: rest) = "| " ++ cell ++ " " ++ row (next :: rest) := by
  have hbar : " | " = " " ++ "| " := rfl
  simp only [row, String.intercalate_cons_cons, hbar, String.append_assoc]

theorem toList_row (cell : String) (rest : List String) :
    (row (cell :: rest)).toList = rowLine (cell :: rest) ++ ['\n'] := by
  induction rest generalizing cell with
  | nil => simp [row, rowLine, padded]
  | cons next rest ih =>
    rw [row_cons_cons, rowLine_cons, String.toList_append, ih]
    simp [padded]

theorem splitOn_rowLine {cells : List String} (h : ∀ cell ∈ cells, '|' ∉ cell.toList) :
    (rowLine cells).splitOn '|' = [] :: cells.map padded ++ [[]] := by
  refine splitOn_flatMap_append (List.forall_mem_cons.mpr ⟨List.not_mem_nil, ?_⟩)
  exact List.forall_mem_map.mpr fun cell hc => not_mem_padded (by decide) (h cell hc)

theorem newline_not_mem_rowLine {cells : List String} (h : ∀ cell ∈ cells, '\n' ∉ cell.toList) :
    '\n' ∉ rowLine cells := by
  induction cells with
  | nil => decide
  | cons cell rest ih =>
    obtain ⟨hc, hr⟩ := List.forall_mem_cons.mp h
    rw [rowLine_cons]
    simp [not_mem_padded (show '\n' ≠ ' ' by decide) hc, ih hr]

theorem number?_toString (n : Nat) : number? (toString n) = some n := by
  have hdigits : (Nat.toDigits 10 n).all Char.isDigit = true :=
    List.all_eq_true.mpr fun c hc => Nat.isDigit_of_mem_toDigits (by decide) (by decide) hc
  have hempty : toString n ≠ "" := by
    rw [Nat.toString_eq_ofList_toDigits]
    exact mt String.ofList_eq_empty_iff.mp Nat.toDigits_ne_nil
  rw [number?, if_pos ⟨hempty, by simpa using hdigits⟩]
  simp

theorem parametersCell_cons_cons (p q : String) (ps : List String) :
    parametersCell (p :: q :: ps) = "\x60" ++ p ++ "\x60, " ++ parametersCell (q :: ps) := by
  have hquote : "\x60, " = "\x60" ++ ", " := rfl
  simp [parametersCell, String.intercalate_cons_cons, hquote, String.append_assoc]

theorem parametersCell_singleton (p : String) : parametersCell [p] = "\x60" ++ p ++ "\x60" := by
  simp [parametersCell]

theorem quotedParts_splitOn {front name behind : List Char} (hf : '\x60' ∉ front)
    (hn : '\x60' ∉ name) :
    quotedParts ((front ++ '\x60' :: (name ++ '\x60' :: behind)).splitOn '\x60') =
      name :: quotedParts (behind.splitOn '\x60') := by
  rw [List.splitOn_append_cons_self_of_not_mem hf, List.splitOn_append_cons_self_of_not_mem hn]
  rfl

/-- Names without backticks are read back from a cell. Behind the first name the comma stands in
`front` of the others. -/
theorem quotedParts_parametersCell {front : List Char} (hf : '\x60' ∉ front) {ps : List String}
    (h : ∀ p ∈ ps, '\x60' ∉ p.toList) :
    quotedParts ((front ++ (parametersCell ps).toList).splitOn '\x60') = ps.map String.toList := by
  induction ps generalizing front with
  | nil =>
    -- The dash for no parameters has no backtick either.
    have hdash : '\x60' ∉ front ++ ['-'] := by simp [hf]
    exact congrArg quotedParts (List.splitOn_eq_singleton hdash)
  | cons p ps ih =>
    obtain ⟨hp, hps⟩ := List.forall_mem_cons.mp h
    cases ps with
    | nil =>
      have hcell : (parametersCell [p]).toList = '\x60' :: (p.toList ++ '\x60' :: []) := by
        simp [parametersCell_singleton]
      rw [hcell, quotedParts_splitOn hf hp]
      rfl
    | cons q ps =>
      have hcell : (parametersCell (p :: q :: ps)).toList =
          '\x60' :: (p.toList ++ '\x60' :: ([',', ' '] ++ (parametersCell (q :: ps)).toList)) := by
        simp [parametersCell_cons_cons]
      rw [hcell, quotedParts_splitOn hf hp, ih (by decide) hps]
      rfl

theorem parametersOfCell_parametersCell {ps : List String} (h : ∀ p ∈ ps, '\x60' ∉ p.toList) :
    parametersOfCell (parametersCell ps) = ps := by
  have hq : quotedParts (([] ++ (parametersCell ps).toList).splitOn '\x60') = ps.map String.toList :=
    quotedParts_parametersCell List.not_mem_nil h
  rw [List.nil_append] at hq
  simp [parametersOfCell, hq, Function.comp_def]

theorem not_mem_parametersCell {c : Char} (hc : c ∉ ['-', '\x60', ',', ' ']) {ps : List String}
    (h : ∀ p ∈ ps, c ∉ p.toList) : c ∉ (parametersCell ps).toList := by
  simp only [List.mem_cons, List.not_mem_nil, or_false, not_or] at hc
  obtain ⟨hdash, hquote, hcomma, hspace⟩ := hc
  induction ps with
  | nil => simpa [parametersCell] using hdash
  | cons p ps ih =>
    obtain ⟨hp, hps⟩ := List.forall_mem_cons.mp h
    cases ps with
    | nil => simp [parametersCell_singleton, hquote, hp]
    | cons q ps => simp [parametersCell_cons_cons, hquote, hcomma, hspace, hp, ih hps]

end Report

/-- Whether the text has only letters, digits and underscores. -/
def isIdentifierPart (text : String) : Bool :=
  text.toList.all isIdentifierRest

theorem isIdentifierPart_of_isIdentifier {text : String} (h : isIdentifier text.toList) :
    isIdentifierPart text :=
  List.all_eq_true.mpr (all_rest_of_isIdentifier h)

theorem isIdentifierPart_toString (n : Nat) : isIdentifierPart (toString n) :=
  List.all_eq_true.mpr fun _ => isIdentifierRest_of_mem_toString

theorem not_mem_of_isIdentifierPart {text : String} {c : Char} (h : isIdentifierPart text)
    (hc : isIdentifierRest c = false) : c ∉ text.toList := by
  intro hm
  rw [List.all_eq_true.mp h c hm] at hc
  cases hc

/-- An entry that a row can tell about. -/
structure Manifest.Entry.Tabular (entry : Manifest.Entry) : Prop where
  name : isIdentifierPart entry.name
  parameters : ∀ p ∈ entry.parameters, isIdentifierPart p
  sql : entry.sql ≠ ""

/-- The statements of a template are not empty, whether their comments stay or not. -/
theorem Template.Layout.apply_ne_nil {text : String} {L : Layout text} {e : Excerpt}
    (he : e ∈ L.statements) (policy : CommentPolicy) : policy.apply e.chars ≠ [] := by
  obtain ⟨he, hc⟩ := List.mem_filter.mp he
  cases policy with
  | strip => simpa [isCommentOnly, CommentPolicy.apply] using hc
  | keep =>
    -- A piece of a script is trimmed and not empty to begin with.
    obtain ⟨-, -, -, -, hne, -⟩ := Excerpt.eq_append_of_mem_ofScript he
    rw [CommentPolicy.apply, Excerpt.trim_chars_of_mem_ofScript he]
    exact hne

/-- The manifest is that of a template that was read. -/
def Manifest.IsParsed (manifest : Manifest) : Prop :=
  ∃ policy text template source stem, Template.parse policy text = .ok template ∧
    manifest = .ofTemplate template source stem

namespace Manifest
variable {policy : CommentPolicy} {text source stem : String} {template : Template}

theorem text_ne_empty_of_parse (h : Template.parse policy text = .ok template) :
    ∀ s ∈ template.statements, s.statement.text ≠ "" := by
  obtain ⟨L, -, rfl, -⟩ := Template.exists_layout_of_parse h
  intro s hs
  rw [Outline.statements_toTemplate] at hs
  obtain ⟨x, hx, rfl⟩ := List.mem_map.mp hs
  have hm : x.1.2 ∈ L.statements := by
    rw [L.statements_eq_zipIdx]
    exact List.mem_map_of_mem hx
  intro he
  exact Template.Layout.apply_ne_nil hm policy (String.ofList_eq_empty_iff.mp he)

theorem exists_statement_of_mem_entries {e : Entry}
    (he : e ∈ (ofTemplate template source stem).entries) :
    ∃ s ∈ template.statements, ∃ name, e = .ofStatement name s := by
  obtain ⟨hlength, hget⟩ := List.forall₂_iff_get.mp (forall₂_ofStatement_entriesOf
    (template.statements.filterMap NamedStatement.name) template.statements)
  obtain ⟨⟨i, hi⟩, rfl⟩ := List.get_of_mem he
  have hs : i < template.statements.length := by simpa using hi
  exact ⟨_, List.get_mem _ ⟨i, hs⟩, _, hget i hs hi⟩

theorem IsParsed.tabular {manifest : Manifest} (h : manifest.IsParsed) :
    ∀ e ∈ manifest.entries, e.Tabular := by
  obtain ⟨policy, text, template, source, stem, h, rfl⟩ := h
  intro e he
  obtain ⟨s, hs, name, hes⟩ := exists_statement_of_mem_entries he
  refine ⟨isIdentifierPart_of_isIdentifier ?_, ?_, ?_⟩
  · rcases name_of_mem_entriesOf he with hg | ⟨-, reserved, n, hn⟩
    · exact (names_of_parse h).2 _ hg
    · rw [hn]
      exact isIdentifier_freeName reserved (isIdentifier_fallbackName n)
  · obtain ⟨sql, hsql⟩ := exists_analysis_of_parse h s hs
    rw [hes, Entry.ofStatement, hsql]
    exact fun p hp => isIdentifierPart_of_isIdentifier (isIdentifier_of_mem_parameters hp)
  · rw [hes]
    exact text_ne_empty_of_parse h s hs

end Manifest

namespace Report
variable {entry : Manifest.Entry}

theorem notesCell_eq (h : entry.Tabular) :
    notesCell entry = if entry.hasReturning then "RETURNING" else "" := by
  simp [notesCell, h.sql]

/-- No cell has a character that neither identifiers nor the separators of parameters have. -/
theorem not_mem_of_mem_cells (h : entry.Tabular) {c : Char} (hc : isIdentifierRest c = false)
    (hs : c ∉ ['-', '\x60', ',', ' ']) : ∀ cell ∈ cells entry, c ∉ cell.toList := by
  have hpart {text : String} (ht : isIdentifierPart text) : c ∉ text.toList :=
    not_mem_of_isIdentifierPart ht hc
  have hmode : isIdentifierPart entry.mode.label := by cases entry.mode <;> decide
  have hfamily : isIdentifierPart entry.family.label := by cases entry.family <;> decide
  have hparameters : c ∉ (parametersCell entry.parameters).toList :=
    not_mem_parametersCell hs fun p hp => hpart (h.parameters p hp)
  have hnotes : isIdentifierPart (notesCell entry) := by
    rw [notesCell_eq h]
    split <;> decide
  simp only [cells, List.forall_mem_cons]
  exact ⟨hpart (isIdentifierPart_toString _), hpart h.name, hpart (isIdentifierPart_toString _),
    hpart hmode, hpart hfamily, hparameters, hpart hnotes, List.forall_mem_nil _⟩

theorem returningOfCell?_notesCell (h : entry.Tabular) :
    returningOfCell? (notesCell entry) = some entry.hasReturning := by
  rw [notesCell_eq h]
  cases entry.hasReturning <;> rfl

theorem ofCells?_cells (h : entry.Tabular) :
    Row.ofCells? (cells entry) = some (Row.ofEntry entry) := by
  have hparameters : parametersOfCell (parametersCell entry.parameters) = entry.parameters :=
    parametersOfCell_parametersCell fun p hp =>
      not_mem_of_isIdentifierPart (h.parameters p hp) (by decide)
  simp only [cells, Row.ofCells?, number?_toString, Mode.ofLabel?_label, Family.ofLabel?_label,
    hparameters, returningOfCell?_notesCell h]
  rfl

theorem tells_rowLine (h : entry.Tabular) : Tells entry (rowLine (cells entry)) := by
  refine ⟨(cells entry).map padded, ?_, rfl, ?_⟩
  · exact splitOn_rowLine (not_mem_of_mem_cells h (by decide) (by decide))
  · rw [List.map_map, show cellText ∘ padded = id from funext cellText_padded, List.map_id]
    exact ofCells?_cells h

end Report

end NamedSql
