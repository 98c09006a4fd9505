import NamedSql.Proofs.Extents
import NamedSql.Proofs.MarkerForm
import NamedSql.Proofs.TemplateLines
import NamedSql.Template

namespace NamedSql

theorem isPlain_of_isBlank {c : Char} (h : isBlank c) : isPlain c :=
  isPlain_of_all (by decide) h

theorem isPlain_of_isWordChar {c : Char} (h : isWordChar c) : isPlain c :=
  isPlain_of_all (by decide) h

theorem isPlain_of_isAlpha {c : Char} (h : c.isAlpha) : isPlain c :=
  isPlain_of_all (p := Char.isAlpha) (by decide) h

theorem isPlain_of_returns {returns : List Char} (h : ∀ c ∈ returns, c = '\r') :
    ∀ c ∈ returns, isPlain c := by
  intro c hc
  rw [h c hc]
  decide

theorem HashForm.isPlain {word line : List Char} (h : HashForm word line) (hw : IsWord word) :
    ∀ c ∈ line, isPlain c := by
  obtain ⟨gap, hg, rfl⟩ := h
  intro c hc
  rcases List.mem_cons.mp hc with rfl | hc
  · decide
  · rcases List.mem_append.mp hc with hc | hc
    · exact isPlain_of_isBlank (hg c hc)
    · exact isPlain_of_isWordChar (hw.2 c hc)

theorem CommentForm.exists_body {word line : List Char} (h : CommentForm word line)
    (hw : IsWord word) : ∃ body, line = '-' :: '-' :: body ∧ ∀ c ∈ body, isPlain c := by
  obtain ⟨gap, label, gap', gap'', hg, hl, rfl⟩ := h
  refine ⟨_, rfl, ?_⟩
  simp only [List.forall_mem_append, List.forall_mem_cons] at hg ⊢
  obtain ⟨⟨hg, hg'⟩, hg''⟩ := hg
  refine ⟨⟨⟨fun c hc => isPlain_of_isBlank (hg c hc), ?_⟩, ?_⟩, by decide, ?_, ?_⟩
  · exact fun c hc => isPlain_of_isAlpha (isAlpha_of_mem_label hl c hc)
  · exact fun c hc => isPlain_of_isBlank (hg' c hc)
  · exact fun c hc => isPlain_of_isBlank (hg'' c hc)
  · exact fun c hc => isPlain_of_isWordChar (hw.2 c hc)

namespace Line

open Lexeme

theorem Names.transparent {l : Line} {word returns : List Char} (h : l.Names word)
    (hc : '\n' ∉ l.content) (hr : ∀ c ∈ returns, c = '\r') :
    Transparent (l.content ++ returns) := by
  obtain ⟨hw, hf⟩ := h
  obtain ⟨back, hj, hb⟩ := append_trim l.content
  have hlead : ∀ c ∈ l.content.takeWhile isBlank, isPlain c := fun c hc =>
    isPlain_of_isBlank (isBlank_of_mem_takeWhile c hc)
  have hback : ∀ c ∈ back ++ returns, isPlain c := by
    intro c hc
    rcases List.mem_append.mp hc with hc | hc
    · exact isPlain_of_isBlank (hb c hc)
    · exact isPlain_of_returns hr c hc
  generalize l.content.takeWhile isBlank = lead at hj hlead
  rcases hf with hf | hf
  · have ht := hf.isPlain hw
    rw [hj]
    refine Transparent.of_plain ?_
    simp only [List.forall_mem_append] at hback ⊢
    exact ⟨⟨hlead, ht, hback.1⟩, hback.2⟩
  · obtain ⟨body, ht, hp⟩ := hf.exists_body hw
    rw [ht] at hj
    have he : l.content ++ returns = lead ++ '-' :: '-' :: (body ++ (back ++ returns)) := by
      rw [hj]
      simp
    rw [he]
    refine Transparent.of_comment hlead ?_ ?_
    · intro c hc
      exact isQuiet_of_isPlain ((List.mem_append.mp hc).elim (hp c) (hback c))
    · have hreturns : '\n' ∉ returns := fun hm => absurd (hr _ hm) (by decide)
      rw [hj] at hc
      simp only [List.mem_append, List.mem_cons] at hc ⊢
      tauto

/-- A line that ends as `l` does and has as many bytes, where neither of them can open or close a
region. -/
structure Exchangeable (l k : Line) : Prop where
  ending : k.ending = l.ending
  length : byteLength k.content = byteLength l.content
  transparent : ∀ returns, (∀ c ∈ returns, c = '\r') →
    Transparent (l.content ++ returns) ∧ Transparent (k.content ++ returns)

theorem Exchangeable.extents_eq {l k : Line} {before returns post : List Char}
    (h : l.Exchangeable k) (hb : AtLineStart before) (hp : AtLineEnd post)
    (hr : ∀ c ∈ returns, c = '\r') :
    Outline.extents (before ++ (k.content ++ returns ++ post)) =
      Outline.extents (before ++ (l.content ++ returns ++ post)) := by
  obtain ⟨hl, hk⟩ := h.transparent returns hr
  exact extents_replace hb hl hk (by simp [h.length]) hp

/-- A marker line can be exchanged for plain characters. -/
theorem Names.exchangeable {l : Line} {word plain : List Char} (h : l.Names word)
    (hc : '\n' ∉ l.content) (hp : ∀ c ∈ plain, isPlain c)
    (hl : byteLength plain = byteLength l.content) : l.Exchangeable { l with content := plain } := by
  refine ⟨rfl, hl, fun returns hr => ⟨h.transparent hc hr, Transparent.of_plain fun c hm => ?_⟩⟩
  exact (List.mem_append.mp hm).elim (hp c) (isPlain_of_returns hr c)

theorem Names.exchangeable_blank {l : Line} {word : List Char} (h : l.Names word)
    (hc : '\n' ∉ l.content) : l.Exchangeable l.blank := by
  refine h.exchangeable hc (fun c hm => ?_) (byteLength_replicate_space _)
  exact isPlain_of_isBlank (isBlank_of_mem_spaces c hm)

end Line

namespace Outline

/-- The text of the lines with some of them blanked. -/
def masked (blanked : Line → Bool) (lines : List Line) : List Char :=
  Line.join (lines.map fun l => if blanked l then l.blank else l)

theorem withoutMarkers_eq (lines : List Line) :
    withoutMarkers lines = masked (·.markerName?.isSome) lines := by
  rw [withoutMarkers, masked, Line.join, List.flatMap_map]
  refine congrArg (List.flatMap · lines) (funext fun l => ?_)
  split <;> rfl

variable {blanked : Line → Bool} {before : List Char}

/-- When lines take the place of lines that they can be exchanged for, no opaque region moves. -/
theorem extents_join_map {f : Line → Line} {lines : List Line} {start : Position}
    (h : Line.Follows start lines) (hf : ∀ l ∈ lines, f l = l ∨ l.Exchangeable (f l))
    (hb : AtLineStart before) :
    extents (before ++ Line.join (lines.map f)) = extents (before ++ Line.join lines) := by
  induction h generalizing before with
  | nil => rfl
  | @last _ l _ _ returns =>
    rcases hf l (List.mem_singleton.mpr rfl) with he | he
    · simp [he]
    · have hp : AtLineEnd [] := by simp [AtLineEnd]
      have hl := he.extents_eq hb hp returns
      simpa [Line.join, Line.text, he.ending] using hl
  | @cons _ l lines returns _ _ ending onlyReturns _ ih =>
    have hrest : extents (before ++ l.text ++ Line.join (lines.map f)) =
        extents (before ++ l.text ++ Line.join lines) :=
      ih (fun k hk => hf k (List.mem_cons_of_mem l hk)) (by simp [AtLineStart, Line.text, ending])
    rcases hf l (List.mem_cons_self ..) with he | he
    · simpa [Line.join, he] using hrest
    · have hp : AtLineEnd ('\n' :: Line.join (lines.map f)) := by simp [AtLineEnd]
      have hl := he.extents_eq hb hp onlyReturns
      calc extents (before ++ Line.join ((l :: lines).map f))
          = extents (before ++ ((f l).content ++ returns ++ '\n' :: Line.join (lines.map f))) := by
            simp [Line.join, Line.text, he.ending, ending]
        _ = extents (before ++ (l.content ++ returns ++ '\n' :: Line.join (lines.map f))) := hl
        _ = extents (before ++ l.text ++ Line.join (lines.map f)) := by simp [Line.text, ending]
        _ = extents (before ++ l.text ++ Line.join lines) := hrest
        _ = extents (before ++ Line.join (l :: lines)) := by simp [Line.join]

/-- Blanking lines that look like markers moves no opaque region. -/
theorem extents_masked {lines : List Line} {start : Position} (h : Line.Follows start lines)
    (hm : ∀ l ∈ lines, blanked l → l.markerName?.isSome) (hb : AtLineStart before) :
    extents (before ++ masked blanked lines) = extents (before ++ Line.join lines) := by
  refine extents_join_map h (fun l hl => ?_) hb
  split
  · rename_i hbl
    obtain ⟨name, hn⟩ := Option.isSome_iff_exists.mp (hm l hl hbl)
    exact .inr ((Line.markerName?_eq_some_iff.mp hn).exchangeable_blank (h.newline_not_mem hl))
  · exact .inl rfl

end Outline

/-- The line has the form of a marker for `m`, and it does not begin strictly inside a string, a
block comment or a dollar-quoted block of the script. -/
structure Line.Marks (script : List Char) (l : Line) (m : Marker) : Prop where
  form : l.Names m.name.toList
  number : m.line = l.start.line
  outside : ∀ p r, (p, .region r) ∈ Segment.locate .origin (Segment.ofText script) →
    r.kind ≠ .lineComment → r.encloses p.byte l.start.byte = false

namespace Outline

theorem mem_opaqueRegions_iff {script : List Char} {start : Nat} {r : Region} :
    (start, r) ∈ opaqueRegions script ↔ ∃ p,
      (p, .region r) ∈ Segment.locate .origin (Segment.ofText script) ∧ r.kind ≠ .lineComment ∧
        p.byte = start := by
  simp only [opaqueRegions, List.mem_filterMap]
  constructor
  · intro h
    obtain ⟨⟨p, s⟩, hm, hs⟩ := h
    cases s with
    | code cs => cases hs
    | region s =>
      dsimp only at hs
      split at hs
      · cases hs
      · rename_i hk
        cases hs
        exact ⟨p, hm, hk, rfl⟩
  · intro h
    obtain ⟨p, hm, hk, rfl⟩ := h
    exact ⟨(p, .region r), hm, if_neg hk⟩

/-- Whether a place is inside an opaque region can be read off their extents. -/
theorem any_encloses_eq (script : List Char) (offset : Nat) :
    ((opaqueRegions script).any fun (start, r) => r.encloses start offset) =
      (extents script).any fun e => e.start < offset && offset < e.start + e.length := by
  rw [extents, List.any_map]
  rfl

theorem marker?_congr {a b : List Char} (h : extents a = extents b) :
    marker? (opaqueRegions a) = marker? (opaqueRegions b) := by
  funext l
  rw [marker?, any_encloses_eq, h, ← any_encloses_eq, marker?]

theorem any_encloses_eq_false_iff {script : List Char} {offset : Nat} :
    ((opaqueRegions script).any fun (start, r) => r.encloses start offset) = false ↔
      ∀ p r, (p, .region r) ∈ Segment.locate .origin (Segment.ofText script) →
        r.kind ≠ .lineComment → r.encloses p.byte offset = false := by
  rw [List.any_eq_false]
  constructor
  · intro h p r hm hk
    simpa using h (p.byte, r) (mem_opaqueRegions_iff.mpr ⟨p, hm, hk, rfl⟩)
  · intro h (start, r) hm
    obtain ⟨p, hp, hk, rfl⟩ := mem_opaqueRegions_iff.mp hm
    simpa using h p r hp hk

theorem marker?_eq_some_iff {script : List Char} {l : Line} {m : Marker} :
    marker? (opaqueRegions script) l = some m ↔ l.Marks script m := by
  have hn : (l.markerName?.map fun name => Marker.mk name l.start.line) = some m ↔
      l.Names m.name.toList ∧ m.line = l.start.line := by
    rw [← Line.markerName?_eq_some_iff, Option.map_eq_some_iff]
    constructor
    · intro h
      obtain ⟨name, hn, rfl⟩ := h
      exact ⟨hn, rfl⟩
    · intro h
      exact ⟨m.name, h.1, by rw [← h.2]⟩
  rw [marker?, Option.ite_none_left_eq_some, Bool.not_eq_true, any_encloses_eq_false_iff, hn]
  constructor
  · intro h
    exact ⟨h.2.1, h.2.2, h.1⟩
  · intro h
    exact ⟨h.outside, h.form, h.number⟩

/-- The outline of lines in which `marker?` finds the markers. -/
def ofMarkers (className : Option String) (marker? : Line → Option Marker) (lines : List Line) :
    Except TemplateError Outline := do
  let (lead, sections) := cutAtMarkers marker? lines
  checkNames [] (lines.filterMap marker?)
  return ⟨className, ⟨none, .origin, lead⟩ :: sections⟩

/-- The sections have the markers that were found, in their order. -/
theorem filterMap_marker_cutAtMarkers (marker? : Line → Option Marker) (lines : List Line) :
    (cutAtMarkers marker? lines).2.filterMap Section.marker = lines.filterMap marker? := by
  induction lines with
  | nil => rfl
  | cons l lines ih =>
    rw [cutAtMarkers]
    cases hm : marker? l with
    | none => simpa [hm] using ih
    | some m => simpa [hm] using ih

variable {text : List Char} {className : Option String} {lines : List Line}

theorem ofText_of_readHeader (h : readHeader (Line.ofText text) = .ok (className, lines)) :
    ofText text = ofMarkers className (marker? (opaqueRegions (withoutMarkers lines))) lines := by
  simp only [ofText, h, ofMarkers, ← filterMap_marker_cutAtMarkers]
  rfl

/-- Reading the header blanks its line and changes nothing else. -/
theorem readHeader_cases (h : readHeader (Line.ofText text) = .ok (className, lines)) :
    className = none ∧ lines = Line.ofText text ∨
      ∃ name first rest, className = some name ∧ Line.ofText text = first :: rest ∧
        lines = first.blank :: rest := by
  generalize Line.ofText text = all at h
  cases all with
  | nil =>
    cases h
    exact .inl ⟨rfl, rfl⟩
  | cons first rest =>
    rw [readHeader] at h
    split at h
    · cases h
      exact .inl ⟨rfl, rfl⟩
    · cases h
    · split at h
      · cases h
        exact .inr ⟨_, first, rest, rfl, rfl, rfl⟩
      · cases h

theorem follows_of_readHeader (h : readHeader (Line.ofText text) = .ok (className, lines)) :
    Line.Follows .origin lines := by
  have hf := Line.follows_ofText text
  rcases readHeader_cases h with ⟨-, rfl⟩ | ⟨name, first, rest, -, ht, rfl⟩
  · exact hf
  · rw [ht] at hf
    exact hf.blank_head

theorem extents_withoutMarkers (h : Line.Follows .origin lines) :
    extents (withoutMarkers lines) = extents (Line.join lines) := by
  rw [withoutMarkers_eq, ← List.nil_append (masked _ lines), ← List.nil_append (Line.join lines)]
  exact extents_masked h (fun l _ hl => hl) (by simp [AtLineStart])

end Outline

/-- How a template with the given lines is read, its header being blanked in them. -/
structure Template.MarkersInContext (text : String) (className : Option String)
    (lines : List Line) : Prop where
  header : className = none ∧ lines = Line.ofText text.toList ∨
    ∃ name first rest, className = some name ∧ Line.ofText text.toList = first :: rest ∧
      lines = first.blank :: rest
  places : ∀ front l back, lines = front ++ l :: back →
    l.start = Position.origin.after (Line.join front)
  regions : Outline.extents (Outline.withoutMarkers lines) = Outline.extents (Line.join lines)
  markers : ∃ used : Line → Option Marker,
    (∀ l m, used l = some m ↔ l.Marks (Line.join lines) m) ∧
      ∀ policy, Template.parse policy text =
        (Outline.ofMarkers className used lines).map (Outline.toTemplate policy)

/-- A line is used as a marker exactly when it has the form of one and stands in no string, block
comment or dollar-quoted block of the template as it is, the header apart. -/
theorem Template.markersInContext_of_readHeader {text : String} {className : Option String}
    {lines : List Line} (h : Outline.readHeader (Line.ofText text.toList) = .ok (className, lines)) :
    Template.MarkersInContext text className lines := by
  have hf := Outline.follows_of_readHeader h
  have hr := Outline.extents_withoutMarkers hf
  refine ⟨Outline.readHeader_cases h, ?_, hr, ?_⟩
  · intro front l back hl
    exact Line.Follows.start_eq (hl ▸ hf)
  · refine ⟨Outline.marker? (Outline.opaqueRegions (Line.join lines)), ?_, ?_⟩
    · intro l m
      exact Outline.marker?_eq_some_iff
    · intro policy
      rw [Template.parse, Outline.ofText_of_readHeader h, Outline.marker?_congr hr]

theorem Template.markersInContext_of_readHeader_nested :
    Template.MarkersInContext "# A\n--NAME: b\n'\n# c\n';\n  #d\r\n1" (some "A")
      (Line.ofText "   \n--NAME: b\n'\n# c\n';\n  #d\r\n1".toList) := by
  have h : Outline.readHeader (Line.ofText "# A\n--NAME: b\n'\n# c\n';\n  #d\r\n1".toList) =
      .ok (some "A", Line.ofText "   \n--NAME: b\n'\n# c\n';\n  #d\r\n1".toList) := by
    decide +kernel
  exact Template.markersInContext_of_readHeader h

end NamedSql
