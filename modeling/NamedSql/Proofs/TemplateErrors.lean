import NamedSql.Proofs.MarkerContext

namespace NamedSql

namespace Template

/-- The first line, trimmed. -/
def heading (text : List Char) : List Char :=
  trim (text.takeWhile (· != '\n'))

/-- The lines of a template with a fine header: if there is one, its line is blank. -/
def body (text : List Char) : List Line :=
  match heading text, Line.ofText text with
  | '#' :: ' ' :: _, first :: rest => first.blank :: rest
  | _, lines => lines

inductive HeaderFault (text : List Char) : TemplateError → Prop
  | empty (lone : heading text = ['#']) : HeaderFault text .emptyClassName
  | invalid {name : List Char} (header : heading text = '#' :: ' ' :: name)
      (fault : isIdentifier (trim name) = false) :
      HeaderFault text (.invalidClassName (String.ofList (trim name)))

end Template

/-- The line is a name marker of the script that is refused. `front` are the lines before it. -/
inductive Line.Refused (script : List Char) (front : List Line) (l : Line) : TemplateError → Prop
  | invalid {name : String} (marks : l.Marks script ⟨name, front.length + 1⟩)
      (fault : isIdentifier name.toList = false) :
      Refused script front l (.invalidStatementName name (front.length + 1))
  | duplicate {name : String} (marks : l.Marks script ⟨name, front.length + 1⟩)
      (fine : isIdentifier name.toList)
      (given : ∃ k ∈ front, ∃ line, k.Marks script ⟨name, line⟩) :
      Refused script front l (.duplicateStatementName name (front.length + 1))

/-- The first refused line among `lines`, which follow the lines in `passed`, gives the error. -/
def Line.FirstRefused (script : List Char) (passed lines : List Line) (e : TemplateError) : Prop :=
  ∃ front l back, lines = front ++ l :: back ∧ l.Refused script (passed ++ front) e ∧
    ∀ front' l' back', front = front' ++ l' :: back' →
      ∀ e', ¬ l'.Refused script (passed ++ front') e'

/-- What is wrong with a template. A marker counts only when the header is fine. -/
inductive Template.Fault (text : List Char) : TemplateError → Prop
  | header {e : TemplateError} (fault : HeaderFault text e) : Fault text e
  | marker {e : TemplateError} (fine : ∀ e', ¬ HeaderFault text e')
      (first : Line.FirstRefused (Line.join (body text)) [] (body text) e) : Fault text e

theorem Line.trim_content_ofChars (start : Position) (chars : List Char) :
    trim (ofChars start chars).content = trim chars := by
  obtain ⟨dropped, hc, hd⟩ := dropEndWhile_append isEnding chars
  have hb : ∀ c ∈ dropped, isBlank c := by
    intro c hm
    have hr := hd c hm
    simp only [isEnding, Bool.or_eq_true, beq_iff_eq] at hr
    rcases hr with rfl | rfl <;> decide
  conv_rhs => rw [hc, trim_append_of_all hb]
  rfl

/-- The first line is what stands in front of the first newline. -/
theorem Line.trim_content_head {text : List Char} {first : Line} {rest : List Line}
    (h : ofText text = first :: rest) : trim first.content = Template.heading text := by
  induction text using separator_induction '\n' with
  | last text hn =>
    have hne : text ≠ [] := by
      rintro rfl
      cases h
    rw [ofText, cut_of_not_mem hne hn, locate] at h
    cases h
    rw [trim_content_ofChars, Template.heading, List.takeWhile_eq_self_iff.mpr]
    intro c hc
    exact bne_iff_ne.mpr fun he => hn (he ▸ hc)
  | cut body rest hn _ =>
    rw [ofText, cut_append_newline hn, locate] at h
    cases h
    have hb : ∀ c ∈ body, (c != '\n') = true := fun c hc => bne_iff_ne.mpr fun he => hn (he ▸ hc)
    rw [trim_content_ofChars, Template.heading, List.takeWhile_append_of_pos hb]
    have hd : ∀ d ∈ ['\n'], isBlank d := by simp [isBlank]
    simp [trim_append_of_all hd]

theorem Header.ofLine_cases (l : Line) :
    (ofLine l = .empty ∧ trim l.content = ['#']) ∨
      (∃ name, ofLine l = .named (trim name) ∧ trim l.content = '#' :: ' ' :: name) ∨
        ofLine l = .absent ∧ trim l.content ≠ ['#'] ∧
          ∀ name, trim l.content ≠ '#' :: ' ' :: name := by
  unfold ofLine
  split
  · rename_i h
    exact .inl ⟨rfl, h⟩
  · rename_i name h
    exact .inr (.inl ⟨name, rfl, h⟩)
  · rename_i hn hnamed
    exact .inr (.inr ⟨rfl, hn, hnamed⟩)

namespace Template
variable {text : List Char}

theorem body_of_header {first : Line} {rest : List Line} {name : List Char}
    (hh : heading text = '#' :: ' ' :: name) (hl : Line.ofText text = first :: rest) :
    body text = first.blank :: rest := by
  simp only [body, hh, hl]

theorem body_of_no_header (hh : ∀ name, heading text ≠ '#' :: ' ' :: name) :
    body text = Line.ofText text := by
  unfold body
  split
  · rename_i name _ _ h _
    exact absurd h (hh name)
  · rfl

theorem headerFault_iff_of_lone (h : heading text = ['#']) {e : TemplateError} :
    HeaderFault text e ↔ e = .emptyClassName := by
  constructor
  · intro hf
    cases hf with
    | empty => rfl
    | invalid header => cases h.symm.trans header
  · rintro rfl
    exact .empty h

theorem headerFault_iff_of_header {name : List Char} (h : heading text = '#' :: ' ' :: name)
    {e : TemplateError} : HeaderFault text e ↔
      isIdentifier (trim name) = false ∧ e = .invalidClassName (String.ofList (trim name)) := by
  constructor
  · intro hf
    cases hf with
    | empty lone => cases h.symm.trans lone
    | invalid header fault =>
      cases h.symm.trans header
      exact ⟨fault, rfl⟩
  · rintro ⟨fault, rfl⟩
    exact .invalid h fault

theorem not_headerFault (hlone : heading text ≠ ['#'])
    (hheader : ∀ name, heading text ≠ '#' :: ' ' :: name) {e : TemplateError} :
    ¬ HeaderFault text e := by
  intro hf
  cases hf with
  | empty lone => exact hlone lone
  | invalid header => exact hheader _ header

/-- Reading the header finds its fault, or the lines of a template whose header is fine. -/
theorem readHeader_ofText (text : List Char) :
    match Outline.readHeader (Line.ofText text) with
    | .error e => ∀ e', HeaderFault text e' ↔ e' = e
    | .ok (_, lines) => lines = body text ∧ ∀ e', ¬ HeaderFault text e' := by
  have absent (hh : heading text ≠ ['#']) (hn : ∀ name, heading text ≠ '#' :: ' ' :: name) :
      Line.ofText text = body text ∧ ∀ e', ¬ HeaderFault text e' :=
    ⟨(body_of_no_header hn).symm, fun _ => not_headerFault hh hn⟩
  cases hl : Line.ofText text with
  | nil =>
    have ht : text = [] := by rw [← Line.join_ofText text, hl]; rfl
    rw [hl] at absent
    exact absent (by simp [ht, heading, trim, trimStart, trimEnd, dropEndWhile])
      (by simp [ht, heading, trim, trimStart, trimEnd, dropEndWhile])
  | cons first rest =>
    have ht := Line.trim_content_head hl
    rw [Outline.readHeader]
    rcases Header.ofLine_cases first with ⟨ho, hc⟩ | ⟨name, ho, hc⟩ | ⟨ho, hc, hn⟩
    · rw [ho]
      exact fun e' => headerFault_iff_of_lone (ht.symm.trans hc)
    · rw [ho]
      have hh := ht.symm.trans hc
      cases hi : isIdentifier (trim name) with
      | true =>
        simp only [hi, if_true]
        refine ⟨(body_of_header hh hl).symm, fun e' => ?_⟩
        simp [headerFault_iff_of_header hh, hi]
      | false =>
        simp only [hi, if_false, Bool.false_eq_true]
        intro e'
        simp [headerFault_iff_of_header hh, hi]
    · rw [ho]
      rw [hl] at absent
      rw [ht] at hc hn
      exact absent hc hn

theorem follows_body (text : List Char) : Line.Follows .origin (body text) := by
  have hf := Line.follows_ofText text
  unfold body
  split
  · rename_i hl
    rw [hl] at hf
    exact hf.blank_head
  · exact hf

end Template

namespace Line
variable {script : List Char} {passed lines front : List Line} {l : Line} {m : Marker}
  {e : TemplateError}

theorem Marks.unique {k : Marker} (hm : l.Marks script m) (hk : l.Marks script k) : m = k :=
  Option.some.inj ((Outline.marker?_eq_some_iff.mpr hm).symm.trans
    (Outline.marker?_eq_some_iff.mpr hk))

/-- A marker line gives its name in addition to those that the lines before it give. -/
theorem exists_marks_concat_iff (hm : l.Marks script m) {name : String} :
    (∃ k ∈ passed ++ [l], ∃ line, k.Marks script ⟨name, line⟩) ↔
      name = m.name ∨ ∃ k ∈ passed, ∃ line, k.Marks script ⟨name, line⟩ := by
  have hl : (∃ line, l.Marks script ⟨name, line⟩) ↔ name = m.name := by
    constructor
    · rintro ⟨line, h⟩
      exact congrArg Marker.name (h.unique hm)
    · rintro rfl
      exact ⟨m.line, hm⟩
  simp [or_and_right, exists_or, hl, or_comm]

theorem Refused.marks (h : l.Refused script front e) : ∃ m, l.Marks script m := by
  cases h with
  | invalid marks => exact ⟨_, marks⟩
  | duplicate marks => exact ⟨_, marks⟩

theorem refused_iff (hm : l.Marks script m) (hn : m.line = front.length + 1) :
    l.Refused script front e ↔
      isIdentifier m.name.toList = false ∧ e = .invalidStatementName m.name m.line ∨
        isIdentifier m.name.toList = true ∧ (∃ k ∈ front, ∃ line, k.Marks script ⟨m.name, line⟩) ∧
          e = .duplicateStatementName m.name m.line := by
  obtain ⟨name, line⟩ := m
  cases hn
  constructor
  · intro h
    cases h with
    | invalid marks fault =>
      cases marks.unique hm
      exact .inl ⟨fault, rfl⟩
    | duplicate marks fine given =>
      cases marks.unique hm
      exact .inr ⟨fine, given, rfl⟩
  · intro h
    rcases h with ⟨fault, rfl⟩ | ⟨fine, given, rfl⟩
    · exact .invalid hm fault
    · exact .duplicate hm fine given

theorem not_firstRefused_nil : ¬ FirstRefused script passed [] e := by
  rintro ⟨front, l, back, h, -⟩
  simp at h

/-- Either the first line is refused or the other lines are looked through. -/
theorem firstRefused_cons_iff :
    FirstRefused script passed (l :: lines) e ↔ l.Refused script passed e ∨
      (∀ e', ¬ l.Refused script passed e') ∧ FirstRefused script (passed ++ [l]) lines e := by
  constructor
  · intro h
    obtain ⟨front, k, back, hl, hr, hfirst⟩ := h
    cases front with
    | nil =>
      cases hl
      exact .inl (by simpa using hr)
    | cons j front =>
      cases hl
      refine .inr ⟨by simpa using hfirst [] l front rfl, front, k, back, rfl, by simpa using hr, ?_⟩
      intro front' l' back' hf
      simpa using hfirst (l :: front') l' back' (by rw [hf]; rfl)
  · intro h
    rcases h with h | ⟨hl, front, k, back, rfl, hr, hfirst⟩
    · exact ⟨[], l, lines, rfl, by simpa using h, by simp⟩
    · refine ⟨l :: front, k, back, rfl, by simpa using hr, ?_⟩
      intro front' l' back' hf
      cases front' with
      | nil =>
        cases hf
        simpa using hl
      | cons j front' =>
        cases hf
        simpa using hfirst front' l' back' rfl

end Line

namespace Outline
variable {script : List Char} {passed lines : List Line} {used : Line → Option Marker}
  {given : List String} {e : TemplateError}

/-- The check stops at the first refused line. `given` are the names in the lines before. -/
theorem checkNames_eq_error_iff (hu : ∀ l m, used l = some m ↔ l.Marks script m)
    (hf : Line.Follows .origin (passed ++ lines))
    (hg : ∀ name, name ∈ given ↔ ∃ k ∈ passed, ∃ line, k.Marks script ⟨name, line⟩) :
    checkNames given (lines.filterMap used) = .error e ↔
      Line.FirstRefused script passed lines e := by
  induction lines generalizing passed given with
  | nil => simp [checkNames, Line.not_firstRefused_nil]
  | cons l lines ih =>
    have hf' : Line.Follows .origin ((passed ++ [l]) ++ lines) := by simpa using hf
    rw [Line.firstRefused_cons_iff]
    cases hm : used l with
    | none =>
      have hn (m : Marker) : ¬ l.Marks script m := fun h => by
        have := (hu l m).mpr h
        simp [hm] at this
      have hr (e' : TemplateError) : ¬ l.Refused script passed e' := fun h =>
        h.marks.elim hn
      have hg' : ∀ name, name ∈ given ↔
          ∃ k ∈ passed ++ [l], ∃ line, k.Marks script ⟨name, line⟩ := by
        intro name
        rw [hg]
        simp [hn]
      rw [List.filterMap_cons_none hm, ih hf' hg']
      simp [hr]
    | some m =>
      have hmarks := (hu l m).mp hm
      have hline : m.line = passed.length + 1 := by
        rw [hmarks.number, hf.line_start, Nat.add_comm]
        rfl
      have hr (e' : TemplateError) := Line.refused_iff (e := e') hmarks hline
      rw [List.filterMap_cons_some hm, checkNames]
      simp only [hr, ← hg]
      cases hi : isIdentifier m.name.toList with
      | false => simp [eq_comm]
      | true =>
        by_cases hgiven : m.name ∈ given
        · simp [hgiven, eq_comm]
        · have hg' : ∀ name, name ∈ m.name :: given ↔
              ∃ k ∈ passed ++ [l], ∃ line, k.Marks script ⟨name, line⟩ := by
            intro name
            rw [List.mem_cons, hg, Line.exists_marks_concat_iff hmarks]
          simp [hgiven, ih hf' hg']

theorem ofMarkers_eq_error_iff {className : Option String} :
    ofMarkers className used lines = .error e ↔
      checkNames [] (lines.filterMap used) = .error e := by
  simp only [ofMarkers]
  cases checkNames [] (lines.filterMap used) with
  | error e' =>
    change Except.error e' = Except.error e ↔ _
    simp
  | ok _ =>
    constructor
    · intro h
      cases h
    · intro h
      cases h

end Outline

namespace Template
variable {e : TemplateError}

theorem ofText_eq_error_iff {text : List Char} :
    Outline.ofText text = .error e ↔ Fault text e := by
  have hr := readHeader_ofText text
  cases h : Outline.readHeader (Line.ofText text) with
  | error e₀ =>
    rw [h] at hr
    have ho : Outline.ofText text = .error e₀ := by
      rw [Outline.ofText, h]
      rfl
    rw [ho]
    constructor
    · rintro ⟨⟩
      exact .header ((hr e).mpr rfl)
    · intro hf
      cases hf with
      | header fault => rw [(hr e).mp fault]
      | marker fine => exact absurd ((hr e₀).mpr rfl) (fine e₀)
  | ok read =>
    obtain ⟨className, lines⟩ := read
    rw [h] at hr
    obtain ⟨rfl, hfine⟩ := hr
    have hx := Outline.extents_withoutMarkers (follows_body text)
    have hf : Line.Follows .origin ([] ++ body text) := follows_body text
    have hu (l : Line) (m : Marker) :
        Outline.marker? (Outline.opaqueRegions (Line.join (body text))) l = some m ↔
          l.Marks (Line.join (body text)) m :=
      Outline.marker?_eq_some_iff
    have hg (name : String) : name ∈ [] ↔
        ∃ k ∈ ([] : List Line), ∃ line, k.Marks (Line.join (body text)) ⟨name, line⟩ := by
      simp
    have hc := Outline.checkNames_eq_error_iff (e := e) hu hf hg
    rw [Outline.ofText_of_readHeader h, Outline.marker?_congr hx, Outline.ofMarkers_eq_error_iff, hc]
    constructor
    · exact .marker hfine
    · intro hf
      cases hf with
      | header fault => exact absurd fault (hfine e)
      | marker _ first => exact first

/-- A template is refused with exactly the errors that `Fault` describes, and read when there are
none. Whether comments are kept does not matter. -/
theorem parse_eq_error_iff_fault (policy : CommentPolicy) (text : String) :
    (∀ e, parse policy text = .error e ↔ Fault text.toList e) ∧
      ((∃ template, parse policy text = .ok template) ↔ ∀ e, ¬ Fault text.toList e) ∧
        ∀ other, (parse other text).map (fun _ => ()) = (parse policy text).map fun _ => () := by
  have herror (e : TemplateError) : parse policy text = .error e ↔ Fault text.toList e := by
    rw [← ofText_eq_error_iff, parse]
    cases Outline.ofText text.toList with
    | error e' => simp [Except.map]
    | ok outline =>
      constructor
      · intro h
        cases h
      · intro h
        cases h
  refine ⟨herror, ?_, fun other => ?_⟩
  · simp only [← herror]
    cases parse policy text with
    | error e => simp
    | ok template => simp
  · rw [parse, parse]
    cases Outline.ofText text.toList <;> rfl

/-- A marker inside a string is not looked at, and one that no statement follows is. -/
example : parse .keep "# A\n#b\n'\n#1\n'\n#c\n--name: b\n" =
    .error (.duplicateStatementName "b" 7) := by
  decide +kernel

end Template

end NamedSql
