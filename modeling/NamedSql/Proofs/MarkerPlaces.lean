import NamedSql.Proofs.TemplateLayout

namespace NamedSql

open Lexeme

namespace Lexeme
variable {before : Option Char}

/-- The opaque regions of a scan lie within its text. -/
theorem extent_within {ls : List Lexeme} {start : Nat} {e : Extent} (h : e ∈ extents start ls) :
    start ≤ e.start ∧ e.start + e.length ≤ start + byteLength (join ls) := by
  induction ls generalizing start with
  | nil => cases h
  | cons l ls ih =>
    cases l with
    | code c =>
      have hi := ih h
      simp only [join_cons, text, byteLength_append, byteLength_cons, byteLength_nil]
      omega
    | region r =>
      rw [join_cons, text, byteLength_append]
      rw [extents] at h
      rcases List.mem_append.mp h with h | h
      · split at h
        · cases h
        · rw [List.mem_singleton.mp h]
          dsimp only
          omega
      · have hi := ih h
        omega

end Lexeme

/-- A line begins inside an opaque region exactly when the lines in front of it leave one open. -/
theorem any_enclosing_eq_false_iff {lines more : List Char} (hl : AtLineStart lines)
    (hm : more ≠ []) :
    ((Outline.extents (lines ++ more)).any fun e =>
      e.start < byteLength lines && byteLength lines < e.start + e.length) = false ↔
      Closed (scan none lines) := by
  constructor
  · intro h
    exact (clear_of_not_enclosed hl hm h).closed
  · intro h
    rw [← extents_scan, scan_append_of_closed hl h, extents_append, List.any_eq_false]
    intro e he
    rw [join_scan] at he
    rcases List.mem_append.mp he with he | he
    · have := extent_within he
      rw [join_scan] at this
      simp only [Bool.and_eq_true, decide_eq_true_eq]
      omega
    · have := extent_within he
      simp only [Bool.and_eq_true, decide_eq_true_eq]
      omega

/-- Whether a line is a marker is settled by its form and the lines in front of it. -/
theorem Line.marks_iff {front back : List Line} {l : Line} {m : Marker}
    (h : Line.Follows .origin (front ++ l :: back)) :
    l.Marks (Line.join (front ++ l :: back)) m ↔
      l.Names m.name.toList ∧ m.line = l.start.line ∧ Closed (scan none (Line.join front)) := by
  have hl : AtLineStart (Line.join front) := Line.atLineStart_join h.getLast?_ending
  have hb : l.start.byte = byteLength (Line.join front) := by
    rw [h.start_eq, Position.byte_after]
    exact Nat.zero_add _
  have hne (hn : l.Names m.name.toList) : Line.join (l :: back) ≠ [] := by
    simp [Line.join_cons, Line.text, hn.content_ne_nil]
  have hout (hn : l.Names m.name.toList) := any_enclosing_eq_false_iff hl (hne hn)
  constructor
  · intro hm
    have hclosed := Outline.any_encloses_eq_false_iff.mpr hm.outside
    rw [Outline.any_encloses_eq, hb, Line.join_append] at hclosed
    exact ⟨hm.form, hm.number, (hout hm.form).mp hclosed⟩
  · intro hm
    obtain ⟨hn, hline, hclosed⟩ := hm
    refine ⟨hn, hline, Outline.any_encloses_eq_false_iff.mp ?_⟩
    rw [Outline.any_encloses_eq, hb, Line.join_append]
    exact (hout hn).mpr hclosed

/-- The marker that one of the lines is, as the lines are read. -/
def Outline.markerIn (lines : List Line) : Line → Option Marker :=
  marker? (opaqueRegions (Line.join lines))

/-- Two lines are the same marker, but for its number, when they have the same content and the lines
in front of them leave a region open or do not. -/
theorem Outline.markerIn_eq_map {front back front' back' : List Line} {l l' : Line}
    (number : Nat → Nat) (h : Line.Follows .origin (front ++ l :: back))
    (h' : Line.Follows .origin (front' ++ l' :: back')) (hc : l'.content = l.content)
    (hn : l'.start.line = number l.start.line)
    (hf : Closed (scan none (Line.join front')) ↔ Closed (scan none (Line.join front))) :
    markerIn (front' ++ l' :: back') l' =
      (markerIn (front ++ l :: back) l).map fun m => { m with line := number m.line } := by
  have hnames (word : List Char) : l'.Names word ↔ l.Names word := by
    rw [Line.Names, Line.Names, hc]
  apply Option.ext
  intro m
  rw [Option.map_eq_some_iff]
  simp only [markerIn, marker?_eq_some_iff, Line.marks_iff h, Line.marks_iff h', hnames, hf, hn]
  constructor
  · intro hm
    obtain ⟨hw, hline, hclosed⟩ := hm
    exact ⟨⟨m.name, l.start.line⟩, ⟨hw, rfl, hclosed⟩, by rw [← hline]⟩
  · intro hm
    obtain ⟨k, ⟨hw, hline, hclosed⟩, rfl⟩ := hm
    exact ⟨hw, congrArg number hline, hclosed⟩

namespace Template
variable {policy : CommentPolicy} {text : String}

theorem parse_of_error {e : TemplateError}
    (h : Outline.readHeader (Line.ofText text.toList) = .error e) : parse policy text = .error e := by
  rw [parse, Outline.ofText, h]
  rfl

/-- A template is read by its header, the names of its markers and the sections behind them. -/
theorem parse_of_readHeader {className : Option String} {lines : List Line}
    (h : Outline.readHeader (Line.ofText text.toList) = .ok (className, lines)) :
    parse policy text =
      (Outline.checkNames [] (lines.filterMap (Outline.markerIn lines))).map fun _ =>
        Outline.toTemplate policy
          ⟨className, Outline.sectionsFrom .origin (Outline.markerIn lines) lines⟩ := by
  have hx := Outline.extents_withoutMarkers (Outline.follows_of_readHeader h)
  rw [parse, Outline.ofText_of_readHeader h, Outline.marker?_congr hx]
  simp only [Outline.ofMarkers, Outline.markerIn]
  cases Outline.checkNames [] (lines.filterMap (Outline.marker? _)) <;> rfl

theorem parse_eq_ok_iff {template : Template} :
    parse policy text = .ok template ↔ ∃ className lines,
      Outline.readHeader (Line.ofText text.toList) = .ok (className, lines) ∧
        Outline.checkNames [] (lines.filterMap (Outline.markerIn lines)) = .ok () ∧
          template = Outline.toTemplate policy
            ⟨className, Outline.sectionsFrom .origin (Outline.markerIn lines) lines⟩ := by
  constructor
  · intro h
    cases hr : Outline.readHeader (Line.ofText text.toList) with
    | error e =>
      rw [parse_of_error hr] at h
      cases h
    | ok read =>
      obtain ⟨className, lines⟩ := read
      rw [parse_of_readHeader hr] at h
      cases hc : Outline.checkNames [] (lines.filterMap (Outline.markerIn lines)) with
      | error e =>
        rw [hc] at h
        cases h
      | ok _ =>
        rw [hc] at h
        cases h
        exact ⟨className, lines, rfl, hc, rfl⟩
  · intro h
    obtain ⟨className, lines, hr, hc, rfl⟩ := h
    rw [parse_of_readHeader hr, hc]
    rfl

end Template

end NamedSql
