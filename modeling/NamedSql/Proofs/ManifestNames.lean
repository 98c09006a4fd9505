import NamedSql.Proofs.FirstAppearance
import NamedSql.Proofs.FreeNames
import NamedSql.Proofs.NameAssignment

namespace NamedSql

/-- The form `[A-Za-z_][A-Za-z0-9_]*`. -/
def IdentifierForm (text : List Char) : Prop :=
  ∃ c cs, text = c :: cs ∧ ('A' ≤ c ∧ c ≤ 'Z' ∨ 'a' ≤ c ∧ c ≤ 'z' ∨ c = '_') ∧
    ∀ d ∈ cs, 'A' ≤ d ∧ d ≤ 'Z' ∨ 'a' ≤ d ∧ d ≤ 'z' ∨ '0' ≤ d ∧ d ≤ '9' ∨ d = '_'

/-- A capital letter, then letters and digits. -/
def IsCapitalized (text : List Char) : Prop :=
  ∃ c cs, text = c :: cs ∧ c.isUpper ∧ ∀ d ∈ cs, d.isAlphanum

/-- All that a binding generator takes names from is an identifier, and the entries are numbered and
named apart. -/
structure Manifest.WellNamed (manifest : Manifest) : Prop where
  className : IdentifierForm manifest.className.toList
  names : ∀ e ∈ manifest.entries, IdentifierForm e.name.toList
  distinct : (manifest.entries.map Entry.name).Nodup
  ordinals : manifest.entries.map Entry.ordinal = List.range manifest.entries.length
  parameters : ∀ e ∈ manifest.entries,
    e.parameters.Nodup ∧ ∀ p ∈ e.parameters, IdentifierForm p.toList

theorem isAlpha_iff {c : Char} : c.isAlpha = true ↔ c.isUpper = true ∨ c.isLower = true := by
  delta Char.isAlpha
  exact Bool.or_eq_true_iff

theorem isUpper_iff {c : Char} : c.isUpper = true ↔ 'A' ≤ c ∧ c ≤ 'Z' := by
  delta Char.isUpper
  simp [Char.le_def]

theorem isLower_iff {c : Char} : c.isLower = true ↔ 'a' ≤ c ∧ c ≤ 'z' := by
  delta Char.isLower
  simp [Char.le_def]

theorem isIdentifier_iff_form {text : List Char} : isIdentifier text ↔ IdentifierForm text := by
  cases text with
  | nil => simp [isIdentifier, IdentifierForm]
  | cons c cs =>
    simp [isIdentifier, IdentifierForm, isIdentifierStart, isIdentifierRest, Char.isAlphanum,
      isAlpha_iff, isUpper_iff, isLower_iff, Char.isDigit, Char.le_def, or_assoc]

theorem isUpper_or_isDigit_toUpper {c : Char} (h : c.isAlphanum) :
    c.toUpper.isUpper ∨ c.toUpper.isDigit :=
  of_isAlphanum (p := fun c => c.isAlphanum → c.toUpper.isUpper ∨ c.toUpper.isDigit) (by decide) h h

theorem isAlphanum_of_isUpper {c : Char} (h : c.isUpper) : c.isAlphanum := by
  simp [Char.isAlphanum, isAlpha_iff, h]

theorem toUpper_of_isUpper {c : Char} (h : c.isUpper) : c.toUpper = c :=
  of_isAlphanum (p := fun c => c.isUpper → c.toUpper = c) (by decide) (isAlphanum_of_isUpper h) h

theorem isDigit_eq_false_of_isUpper {c : Char} (h : c.isUpper) : c.isDigit = false :=
  isDigit_eq_false_of_isAlpha (isAlpha_iff.mpr (.inl h))

theorem isBlank_eq_false_of_isAlphanum {c : Char} (h : c.isAlphanum) : isBlank c = false := by
  cases hb : isBlank c with
  | false => rfl
  | true =>
    rw [isAlphanum_eq_false_of_isBlank hb] at h
    cases h

theorem head?_joinCapitalized {cs : List Char} {c : Char}
    (h : (joinCapitalized true cs).head? = some c) : c.isUpper ∨ c.isDigit := by
  induction cs with
  | nil => cases h
  | cons d ds ih =>
    rw [joinCapitalized] at h
    split at h
    · rename_i hd
      cases h
      exact isUpper_or_isDigit_toUpper hd
    · exact ih h

theorem joinCapitalized_of_alphanum {cs : List Char} (h : ∀ c ∈ cs, c.isAlphanum) :
    joinCapitalized false cs = cs := by
  induction cs with
  | nil => rfl
  | cons c cs ih =>
    obtain ⟨hc, hcs⟩ := List.forall_mem_cons.mp h
    rw [joinCapitalized, if_pos hc, ih hcs]
    rfl

theorem isCapitalized_className (stem : String) : IsCapitalized (className stem).toList := by
  unfold className
  split
  · exact ⟨'Q', "ueries".toList, rfl, rfl, List.all_eq_true.mp rfl⟩
  · rename_i c cs h
    have hall : ∀ d ∈ c :: cs, d.isAlphanum := fun d hd =>
      isAlphanum_of_mem_joinCapitalized (h ▸ hd)
    rw [String.toList_ofList]
    split
    · exact ⟨'T', c :: cs, rfl, rfl, hall⟩
    · rename_i hd
      have hc := head?_joinCapitalized (congrArg List.head? h)
      exact ⟨c, cs, rfl, hc.resolve_right hd, (List.forall_mem_cons.mp hall).2⟩

/-- A capitalized name is the class name that is made from it. -/
theorem className_of_isCapitalized {stem : String} (h : IsCapitalized stem.toList) :
    className stem = stem := by
  obtain ⟨c, cs, hs, hc, hcs⟩ := h
  have hca : c.isAlphanum := isAlphanum_of_isUpper hc
  have hall : ∀ d ∈ c :: cs, d.isAlphanum := List.forall_mem_cons.mpr ⟨hca, hcs⟩
  have htrim : trim (c :: cs) = c :: cs := by
    have hstart : trimStart (c :: cs) = c :: cs := by
      simp [trimStart, isBlank_eq_false_of_isAlphanum hca]
    rw [trim, hstart]
    exact dropEndWhile_eq_self fun d hd =>
      isBlank_eq_false_of_isAlphanum (hall d (List.mem_of_getLast? hd))
  have hquote : unquote (c :: cs) = c :: cs := by
    rw [unquote.eq_def]
    split
    · rename_i he
      cases he
      cases hc
    · rfl
  rw [className, hs, htrim, hquote, joinCapitalized, if_pos hca, joinCapitalized_of_alphanum hcs]
  simp only [if_true, toUpper_of_isUpper hc, isDigit_eq_false_of_isUpper hc]
  exact String.toList_inj.mp (by simp [hs])

theorem isIdentifier_of_readHeader {lines rest : List Line} {name : String}
    (h : Outline.readHeader lines = .ok (some name, rest)) : isIdentifier name.toList := by
  cases lines with
  | nil => cases h
  | cons first others =>
    rw [Outline.readHeader] at h
    split at h
    · cases h
    · cases h
    · split at h
      · rename_i hi
        cases h
        rwa [String.toList_ofList]
      · cases h

theorem isIdentifier_className_of_parse {policy : CommentPolicy} {text : String}
    {template : Template} (h : Template.parse policy text = .ok template) :
    ∀ name ∈ template.className, isIdentifier name.toList := by
  rw [Template.parse] at h
  cases hr : Outline.readHeader (Line.ofText text.toList) with
  | error e =>
    rw [Outline.ofText, hr] at h
    cases h
  | ok read =>
    obtain ⟨className, lines⟩ := read
    cases ho : Outline.ofText text.toList with
    | error e =>
      rw [ho] at h
      cases h
    | ok outline =>
      rw [ho] at h
      cases h
      rw [Outline.ofText_of_readHeader hr] at ho
      obtain ⟨-, rfl⟩ := Outline.ofMarkers_eq_ok ho
      rintro name ⟨⟩
      exact isIdentifier_of_readHeader hr

theorem nodup_parameters (sql : String) : (parameters sql).Nodup :=
  (nodup_eraseDups _).map fun _ _ h => String.ofList_injective h

theorem isIdentifier_of_mem_parameters {sql name : String} (h : name ∈ parameters sql) :
    isIdentifier name.toList := by
  obtain ⟨chars, hc, rfl⟩ := List.mem_map.mp h
  rw [parametersOfText, List.mem_eraseDups] at hc
  obtain ⟨segment, -, hs⟩ := List.mem_flatMap.mp hc
  rw [String.toList_ofList]
  cases segment with
  | code code => exact isIdentifier_of_mem_parametersOfCode hs
  | region r => cases hs

namespace Manifest

variable {policy : CommentPolicy} {text : String} {template : Template}

theorem names_of_parse (h : Template.parse policy text = .ok template) :
    (template.statements.filterMap (·.name)).Nodup ∧
      ∀ name ∈ template.statements.filterMap (·.name), isIdentifier name.toList := by
  obtain ⟨L, -, rfl, hc⟩ := Template.exists_layout_of_parse h
  obtain ⟨hd, hi⟩ := Outline.checkNames_eq_ok hc
  have hnames := Template.Layout.names_sublist policy L
  refine ⟨hd.sublist hnames, fun name hn => ?_⟩
  obtain ⟨m, hm, rfl⟩ := List.mem_map.mp (hnames.mem hn)
  exact (hi m hm).1

theorem exists_analysis_of_parse (h : Template.parse policy text = .ok template) :
    ∀ s ∈ template.statements, ∃ sql, s.analysis = Analysis.ofStatement sql := by
  obtain ⟨L, -, rfl, -⟩ := Template.exists_layout_of_parse h
  intro s hs
  rw [Outline.statements_toTemplate] at hs
  obtain ⟨x, -, rfl⟩ := List.mem_map.mp hs
  exact ⟨_, rfl⟩

theorem ordinals_of_parse (h : Template.parse policy text = .ok template) :
    template.statements.map (·.statement.ordinal) = List.range template.statements.length := by
  obtain ⟨L, -, rfl, -⟩ := Template.exists_layout_of_parse h
  rw [Template.ordinals_toTemplate]
  simp [Outline.toTemplate]

/-- A template that was read gives a manifest in which every name is an identifier, and a class name
can be made from any file name. A statement that has a name keeps it.

While fewer than `2 ^ 31 - 1` names are taken, the bound of `search_iff`, the others have the names
that a search with 32-bit numbers finds. -/
theorem wellNamed_of_parse (h : Template.parse policy text = .ok template)
    (source stem : String) :
    (ofTemplate template source stem).WellNamed ∧
      List.Forall₂ (fun s e => ∀ name ∈ s.name, e.name = name) template.statements
        (ofTemplate template source stem).entries ∧
      ∀ other, IdentifierForm (NamedSql.className other).toList ∧
        NamedSql.className (NamedSql.className other) = NamedSql.className other := by
  obtain ⟨hdistinct, hgiven⟩ := names_of_parse h
  have hclass (other : String) : IdentifierForm (NamedSql.className other).toList :=
    isIdentifier_iff_form.mp (isIdentifier_className other)
  refine ⟨⟨?_, ?_, ?_, ?_, ?_⟩, forall₂_name_entriesOf _ _, fun other =>
    ⟨hclass other, className_of_isCapitalized (isCapitalized_className other)⟩⟩
  · change IdentifierForm (template.className.getD (NamedSql.className stem)).toList
    cases hn : template.className with
    | none => exact hclass stem
    | some name => exact isIdentifier_iff_form.mp (isIdentifier_className_of_parse h name hn)
  · intro e he
    apply isIdentifier_iff_form.mp
    rcases name_of_mem_entriesOf he with hg | ⟨-, reserved, n, hn⟩
    · exact hgiven _ hg
    · rw [hn]
      exact isIdentifier_freeName reserved (isIdentifier_fallbackName n)
  · exact nodup_names_entriesOf hdistinct fun _ hn => hn
  · rw [length_entries_ofTemplate, ← ordinals_of_parse h]
    exact map_entriesOf (fun _ _ => rfl) _ _
  · intro e he
    have hp : e.parameters ∈ template.statements.map (·.analysis.parameters) := by
      rw [← map_entriesOf (f := Entry.parameters) (fun _ _ => rfl)]
      exact List.mem_map_of_mem he
    obtain ⟨s, hs, hse⟩ := List.mem_map.mp hp
    obtain ⟨sql, hsql⟩ := exists_analysis_of_parse h s hs
    rw [← hse, hsql]
    exact ⟨nodup_parameters sql, fun p hp =>
      isIdentifier_iff_form.mp (isIdentifier_of_mem_parameters hp)⟩

theorem wellNamed_of_parse_lookalikes :
    ∃ template, Template.parse .keep "#statement_1\n1;:a+:b+:a\n#statement_1_2\n3;4" = .ok template ∧
      (ofTemplate template "d.sql" "\"2fa ké\"").WellNamed ∧
      (ofTemplate template "d.sql" "\"2fa ké\"").className = "T2faK" ∧
      (ofTemplate template "d.sql" "\"2fa ké\"").entries.map Entry.name =
        ["statement_1", "statement_1_3", "statement_1_2", "statement_3"] := by
  have h : Template.parse .keep "#statement_1\n1;:a+:b+:a\n#statement_1_2\n3;4" = .ok ⟨none, [
      ⟨some "statement_1", 2, ⟨"1", 0, .execute⟩, ⟨.other, .execute, [], false⟩⟩,
      ⟨none, 2, ⟨":a+:b+:a", 1, .execute⟩, ⟨.other, .execute, ["a", "b"], false⟩⟩,
      ⟨some "statement_1_2", 4, ⟨"3", 2, .execute⟩, ⟨.other, .execute, [], false⟩⟩,
      ⟨none, 4, ⟨"4", 3, .execute⟩, ⟨.other, .execute, [], false⟩⟩]⟩ := by
    decide +kernel
  exact ⟨_, h, (wellNamed_of_parse h _ _).1, by decide +kernel, by decide +kernel⟩

end Manifest

end NamedSql
