import NamedSql.Proofs.ClearLines
import NamedSql.Proofs.MarkerContext
import NamedSql.Proofs.StatementPlaces

namespace NamedSql

/-- The line with a semicolon and spaces for its content. -/
def Line.separator (l : Line) : Line :=
  { l with content := ';' :: List.replicate (byteLength l.content - 1) ' ' }

/-- The lines of a template in their roles: `lines` are those of the text, the header being blanked,
and `marker?` tells which of them are name markers. -/
structure Template.Layout (text : String) where
  className : Option String
  lines : List Line
  marker? : Line → Option Marker
  header : className = none ∧ lines = Line.ofText text.toList ∨
    ∃ name first rest, className = some name ∧ Line.ofText text.toList = first :: rest ∧
      lines = first.blank :: rest
  marks : ∀ l m, marker? l = some m ↔ l.Marks (Line.join lines) m

namespace Line

theorem byteLength_separator {l : Line} (h : l.content ≠ []) :
    byteLength l.separator.content = byteLength l.content := by
  have := byteLength_pos h
  have hs : ';'.utf8Size = 1 := rfl
  simp only [separator, byteLength_cons, byteLength_replicate_space, hs]
  omega

theorem newline_not_mem_separator (l : Line) : '\n' ∉ l.separator.content := by
  simp [separator]

/-- A line that gives a name is not blank. -/
theorem Names.trim_content_ne_nil {l : Line} {word : List Char} (h : l.Names word) :
    trim l.content ≠ [] := by
  intro hc
  obtain ⟨-, hf⟩ := h
  rw [hc] at hf
  rcases hf with ⟨gap, -, hn⟩ | ⟨gap, label, gap', gap'', -, -, hn⟩ <;> cases hn

theorem Names.content_ne_nil {l : Line} {word : List Char} (h : l.Names word) :
    l.content ≠ [] := by
  intro hc
  exact h.trim_content_ne_nil (by rw [hc]; rfl)

theorem Names.semicolon_not_mem {l : Line} {word : List Char} (h : l.Names word) :
    ';' ∉ l.content := by
  have hblank {gap : List Char} (hg : ∀ c ∈ gap, isBlank c) : ';' ∉ gap := fun hm =>
    absurd (hg _ hm) (by decide)
  have hword : ';' ∉ word := fun hm => absurd (h.1.2 _ hm) (by decide)
  have htrim : ';' ∉ trim l.content := by
    rcases h.2 with ⟨gap, hg, hl⟩ | ⟨gap, label, gap', gap'', hg, hlabel, hl⟩
    · simp [hl, hblank hg, hword]
    · have hletters : ';' ∉ label := fun hm =>
        absurd (isAlpha_of_mem_label hlabel _ hm) (by decide)
      simp only [List.forall_mem_append] at hg
      simp [hl, hblank hg.1.1, hblank hg.1.2, hblank hg.2, hletters, hword]
  obtain ⟨back, hc, hb⟩ := append_trim l.content
  rw [hc]
  simp [hblank isBlank_of_mem_takeWhile, hblank hb, htrim]

theorem Names.exchangeable_separator {l : Line} {word : List Char} (h : l.Names word)
    (hc : '\n' ∉ l.content) : l.Exchangeable l.separator := by
  refine h.exchangeable hc ?_ (byteLength_separator h.content_ne_nil)
  rw [List.forall_mem_cons]
  exact ⟨by decide, fun c hm => isPlain_of_isBlank (isBlank_of_mem_spaces c hm)⟩

theorem join_append (front back : List Line) : join (front ++ back) = join front ++ join back :=
  List.flatMap_append

theorem join_cons (l : Line) (lines : List Line) : join (l :: lines) = l.text ++ join lines := rfl

theorem atLineStart_join {lines : List Line} (h : ∀ l ∈ lines, l.ending.getLast? = some '\n') :
    AtLineStart (join lines) := by
  rcases List.eq_nil_or_concat lines with rfl | ⟨front, l, rfl⟩
  · simp [AtLineStart, join]
  · rw [List.concat_eq_append] at h ⊢
    have hl := h l (by simp)
    simp [AtLineStart, join, text, List.getLast?_append, hl]

end Line

namespace Outline
variable {marker? : Line → Option Marker} {lines front back : List Line} {start : Position}

/-- The lines with the semicolon of a separator in the place of each marker. -/
def separate (marker? : Line → Option Marker) (l : Line) : Line :=
  if (marker? l).isSome then l.separator else l

/-- The sections of lines that begin at `start`, the one in front of the first marker included. -/
def sectionsFrom (start : Position) (marker? : Line → Option Marker) (lines : List Line) :
    List Section :=
  ⟨none, start, (cutAtMarkers marker? lines).1⟩ :: (cutAtMarkers marker? lines).2

/-- The section of the marker that stands on a line. -/
def sectionBehind (marker? : Line → Option Marker) (l : Line) (back : List Line) : Section :=
  ⟨marker? l, l.contentStop, l.ending ++ (cutAtMarkers marker? back).1⟩

theorem separate_of_some {l : Line} {m : Marker} (h : marker? l = some m) :
    separate marker? l = l.separator := by
  simp [separate, h]

theorem separate_of_none {l : Line} (h : marker? l = none) : separate marker? l = l := by
  simp [separate, h]

theorem separate_ending (marker? : Line → Option Marker) (l : Line) :
    (separate marker? l).ending = l.ending := by
  unfold separate
  split <;> rfl

theorem byteLength_text_separate {l : Line} (h : (marker? l).isSome → l.content ≠ []) :
    byteLength (separate marker? l).text = byteLength l.text := by
  cases hm : marker? l with
  | none => rw [separate_of_none hm]
  | some m =>
    rw [separate_of_some hm, Line.text, Line.text, byteLength_append, byteLength_append,
      Line.byteLength_separator (h (by simp [hm]))]
    rfl

theorem byteLength_join_separate (h : ∀ l ∈ lines, (marker? l).isSome → l.content ≠ []) :
    byteLength (Line.join (lines.map (separate marker?))) = byteLength (Line.join lines) := by
  induction lines with
  | nil => rfl
  | cons l lines ih =>
    obtain ⟨hl, hrest⟩ := List.forall_mem_cons.mp h
    rw [List.map_cons, Line.join_cons, Line.join_cons, byteLength_append, byteLength_append,
      ih hrest, byteLength_text_separate hl]

/-- Lines are cut at each of their markers. -/
theorem cutAtMarkers_append {l : Line} (h : (marker? l).isSome) :
    cutAtMarkers marker? (front ++ l :: back) = ((cutAtMarkers marker? front).1,
      (cutAtMarkers marker? front).2 ++
        sectionBehind marker? l back :: (cutAtMarkers marker? back).2) := by
  induction front with
  | nil =>
    obtain ⟨m, hm⟩ := Option.isSome_iff_exists.mp h
    simp [cutAtMarkers, sectionBehind, hm]
  | cons k front ih =>
    rw [List.cons_append, cutAtMarkers, ih, cutAtMarkers]
    cases marker? k <;> rfl

theorem sectionsFrom_append {l : Line} (h : (marker? l).isSome) :
    sectionsFrom start marker? (front ++ l :: back) = sectionsFrom start marker? front ++
      sectionBehind marker? l back :: (cutAtMarkers marker? back).2 := by
  rw [sectionsFrom, cutAtMarkers_append h]
  rfl

theorem cutAtMarkers_fst_prefix (marker? : Line → Option Marker) (lines : List Line) :
    (cutAtMarkers marker? lines).1 <+: Line.join lines := by
  induction lines with
  | nil => exact List.nil_prefix
  | cons l lines ih =>
    rw [cutAtMarkers]
    cases marker? l with
    | none => exact (List.prefix_append_right_inj _).mpr ih
    | some m => exact List.nil_prefix

/-- A section behind a marker stands in the text where its place says. -/
theorem exists_append_of_mem_cutAtMarkers (hf : Line.Follows start lines) {s : Section}
    (hs : s ∈ (cutAtMarkers marker? lines).2) : ∃ before after,
      Line.join lines = before ++ (s.text ++ after) ∧ s.start = start.after before := by
  induction lines generalizing start with
  | nil => cases hs
  | cons l lines ih =>
    have hl : l.start = start := hf.start_head
    have hrest : s ∈ (cutAtMarkers marker? lines).2 → ∃ before after,
        Line.join (l :: lines) = before ++ (s.text ++ after) ∧ s.start = start.after before := by
      intro hs
      obtain ⟨before, after, hj, hstart⟩ := ih hf.tail hs
      exact ⟨l.text ++ before, after, by simp [Line.join_cons, hj],
        by rw [hstart, Position.after_append]⟩
    rw [cutAtMarkers] at hs
    cases hm : marker? l with
    | none =>
      rw [hm] at hs
      exact hrest hs
    | some m =>
      rw [hm] at hs
      rcases List.mem_cons.mp hs with rfl | hs
      · obtain ⟨after, ha⟩ := cutAtMarkers_fst_prefix marker? lines
        exact ⟨l.content, after, by simp [Line.join_cons, Line.text, ← ha],
          by rw [Line.contentStop, hl]⟩
      · exact hrest hs

theorem exists_append_of_mem_sectionsFrom (hf : Line.Follows start lines) {s : Section}
    (hs : s ∈ sectionsFrom start marker? lines) : ∃ before after,
      Line.join lines = before ++ (s.text ++ after) ∧ s.start = start.after before := by
  rcases List.mem_cons.mp hs with rfl | hs
  · obtain ⟨after, ha⟩ := cutAtMarkers_fst_prefix marker? lines
    exact ⟨[], after, ha.symm, rfl⟩
  · exact exists_append_of_mem_cutAtMarkers hf hs

/-- A section behind a marker begins at a marker line. -/
theorem exists_marker_of_mem_cutAtMarkers {s : Section}
    (hs : s ∈ (cutAtMarkers marker? lines).2) : ∃ l ∈ lines, (marker? l).isSome ∧
      s.marker = marker? l ∧ s.start = l.contentStop := by
  induction lines with
  | nil => cases hs
  | cons l lines ih =>
    have hrest : s ∈ (cutAtMarkers marker? lines).2 → ∃ k ∈ l :: lines, (marker? k).isSome ∧
        s.marker = marker? k ∧ s.start = k.contentStop := by
      intro hs
      obtain ⟨k, hk, h⟩ := ih hs
      exact ⟨k, List.mem_cons_of_mem l hk, h⟩
    rw [cutAtMarkers] at hs
    cases hm : marker? l with
    | none =>
      rw [hm] at hs
      exact hrest hs
    | some m =>
      rw [hm] at hs
      rcases List.mem_cons.mp hs with rfl | hs
      · exact ⟨l, List.mem_cons_self .., by simp [hm]⟩
      · exact hrest hs

theorem ofMarkers_eq_ok {className : Option String} {o : Outline}
    (h : ofMarkers className marker? lines = .ok o) :
    checkNames [] (lines.filterMap marker?) = .ok () ∧
      o = ⟨className, sectionsFrom .origin marker? lines⟩ := by
  simp only [ofMarkers] at h
  cases hc : checkNames [] (lines.filterMap marker?) with
  | error e =>
    rw [hc] at h
    cases h
  | ok _ =>
    rw [hc] at h
    cases h
    exact ⟨rfl, rfl⟩

end Outline

namespace Template

/-- The parts of a template that its statements are read from. -/
def sources (text : String) : List Excerpt :=
  match Outline.ofText text.toList with
  | .ok outline => outline.named.map Prod.snd
  | .error _ => []

namespace Layout
variable {text : String} (L : Layout text)

/-- The template as one script: each marker line is a semicolon and spaces. -/
def script : List Char :=
  Line.join (L.lines.map (Outline.separate L.marker?))

/-- The statements of that script. -/
def excerpts : List Excerpt :=
  Excerpt.ofScript .origin L.script

/-- Those that are more than comments. -/
def statements : List Excerpt :=
  L.excerpts.filter fun e => !isCommentOnly e.chars

def outline : Outline where
  className := L.className
  sections := Outline.sectionsFrom .origin L.marker? L.lines

theorem follows : Line.Follows .origin L.lines := by
  have hf := Line.follows_ofText text.toList
  rcases L.header with ⟨-, hl⟩ | ⟨name, first, rest, -, ht, hl⟩
  · rwa [hl]
  · rw [ht] at hf
    rw [hl]
    exact hf.blank_head

variable {L} {front back : List Line} {l : Line} {m : Marker}

theorem names_of_marker? (h : L.marker? l = some m) : l.Names m.name.toList :=
  ((L.marks l m).mp h).form

theorem content_ne_nil (h : (L.marker? l).isSome) : l.content ≠ [] := by
  obtain ⟨m, hm⟩ := Option.isSome_iff_exists.mp h
  exact (names_of_marker? hm).content_ne_nil

theorem start_eq (h : L.lines = front ++ l :: back) :
    l.start = Position.origin.after (Line.join front) :=
  Line.Follows.start_eq (h ▸ L.follows)

/-- No region of the template is open where a marker line begins. -/
theorem clear_join (h : L.lines = front ++ l :: back) (hm : (L.marker? l).isSome) :
    Clear (Line.join front) := by
  obtain ⟨m, hm⟩ := Option.isSome_iff_exists.mp hm
  have hmarks := (L.marks l m).mp hm
  have houter := Outline.any_encloses_eq_false_iff.mpr hmarks.outside
  rw [Outline.any_encloses_eq, start_eq h, h, Line.join_append, Position.byte_after,
    show Position.origin.byte = 0 from rfl, Nat.zero_add] at houter
  have hend : ∀ k ∈ front, k.ending.getLast? = some '\n' :=
    Line.Follows.getLast?_ending (h ▸ L.follows)
  have hne : Line.join (l :: back) ≠ [] := by
    simp [Line.join_cons, Line.text, hmarks.form.content_ne_nil]
  exact clear_of_not_enclosed (Line.atLineStart_join hend) hne houter

/-- Nor is one open in the script in which marker lines are separators. -/
theorem clear_separated (h : L.lines = front ++ l :: back) (hm : (L.marker? l).isSome) :
    Clear (Line.join (front.map (Outline.separate L.marker?))) := by
  have hf : Line.Follows .origin (front ++ l :: back) := h ▸ L.follows
  have hx : Outline.extents (Line.join (front.map (Outline.separate L.marker?))) =
      Outline.extents (Line.join front) := by
    have hn : AtLineStart [] := by simp [AtLineStart]
    refine Outline.extents_join_map hf.front (fun k hk => ?_) hn
    cases hm : L.marker? k with
    | none => exact .inl (Outline.separate_of_none hm)
    | some m =>
      rw [Outline.separate_of_some hm]
      exact .inr ((names_of_marker? hm).exchangeable_separator (hf.front.newline_not_mem hk))
  refine ⟨Line.atLineStart_join fun k hk => ?_, ?_⟩
  · obtain ⟨j, hj, rfl⟩ := List.mem_map.mp hk
    rw [Outline.separate_ending]
    exact hf.getLast?_ending j hj
  · rw [closed_scan_iff_extents, hx, ← closed_scan_iff_extents]
    exact (clear_join h hm).closed

theorem byteLength_script : byteLength L.script = text.utf8ByteSize := by
  have hm : ∀ l ∈ L.lines, (L.marker? l).isSome → l.content ≠ [] :=
    fun l _ h => content_ne_nil h
  have ht : byteLength (Line.join L.lines) = byteLength text.toList := by
    rw [← Line.join_ofText text.toList]
    rcases L.header with ⟨-, hl⟩ | ⟨name, first, rest, -, ht, hl⟩
    · rw [hl]
    · rw [hl, ht, Line.join_cons, Line.join_cons, byteLength_append, byteLength_append,
        Line.byteLength_text_blank]
  rw [script, Outline.byteLength_join_separate hm, ht, utf8ByteSize_eq_byteLength]

theorem sections_eq (h : L.lines = front ++ l :: back) (hm : (L.marker? l).isSome) :
    L.outline.sections = Outline.sectionsFrom .origin L.marker? front ++
      Outline.sectionBehind L.marker? l back :: (Outline.cutAtMarkers L.marker? back).2 := by
  rw [outline, h, Outline.sectionsFrom_append hm]

variable {s : Section} {e : Excerpt}

theorem stop_le_of_mem_front (h : L.lines = front ++ l :: back)
    (hs : s ∈ Outline.sectionsFrom .origin L.marker? front) (he : e ∈ s.excerpts) :
    e.stop.byte ≤ l.start.byte := by
  have hf : Line.Follows .origin (front ++ l :: back) := h ▸ L.follows
  obtain ⟨before, after, hj, hstart⟩ := Outline.exists_append_of_mem_sectionsFrom hf.front hs
  have hw := (Excerpt.within_of_mem_ofScript he).2
  have hl := congrArg byteLength hj
  simp only [byteLength_append] at hl
  simp only [hstart, Position.byte_after] at hw
  simp only [start_eq h, Position.byte_after]
  omega

theorem le_start_of_mem_behind (he : e ∈ (Outline.sectionBehind L.marker? l back).excerpts) :
    l.contentStop.byte ≤ e.start.byte :=
  (Excerpt.within_of_mem_ofScript he).1

theorem stop_le_of_mem_behind (h : L.lines = front ++ l :: back)
    (he : e ∈ (Outline.sectionBehind L.marker? l back).excerpts) {k : Line} (hk : k ∈ back)
    (hm : (L.marker? k).isSome) : e.stop.byte ≤ k.start.byte := by
  obtain ⟨between, rest, rfl⟩ := List.append_of_mem hk
  have hstart := start_eq (show L.lines = (front ++ l :: between) ++ k :: rest by simp [h])
  have hw := (Excerpt.within_of_mem_ofScript he).2
  obtain ⟨after, ha⟩ := Outline.cutAtMarkers_fst_prefix L.marker? between
  have hl := congrArg byteLength ha
  simp only [Outline.sectionBehind, Outline.cutAtMarkers_append hm, Line.contentStop, start_eq h,
    Position.byte_after, byteLength_append] at hw
  simp only [byteLength_append] at hl
  simp only [hstart, Line.join_append, Line.join_cons, Line.text, Position.byte_after,
    byteLength_append]
  omega

theorem exists_marker_le_of_mem_back (hs : s ∈ (Outline.cutAtMarkers L.marker? back).2)
    (he : e ∈ s.excerpts) :
    ∃ k ∈ back, (L.marker? k).isSome ∧ k.contentStop.byte ≤ e.start.byte := by
  obtain ⟨k, hk, hm, -, hstart⟩ := Outline.exists_marker_of_mem_cutAtMarkers hs
  have hw := (Excerpt.within_of_mem_ofScript he).1
  rw [hstart] at hw
  exact ⟨k, hk, hm, hw⟩

end Layout

variable {policy : CommentPolicy} {text : String} {template : Template}

/-- A template that can be read has a layout that it is read by. -/
theorem exists_layout_of_parse (h : parse policy text = .ok template) : ∃ L : Layout text,
    Outline.ofText text.toList = .ok L.outline ∧ template = L.outline.toTemplate policy ∧
      Outline.checkNames [] (L.lines.filterMap L.marker?) = .ok () := by
  rw [parse] at h
  cases ho : Outline.ofText text.toList with
  | error e =>
    rw [ho] at h
    cases h
  | ok o =>
    rw [ho] at h
    cases h
    cases hr : Outline.readHeader (Line.ofText text.toList) with
    | error e =>
      rw [Outline.ofText, hr] at ho
      cases ho
    | ok read =>
      obtain ⟨className, lines⟩ := read
      have hx := Outline.extents_withoutMarkers (Outline.follows_of_readHeader hr)
      rw [Outline.ofText_of_readHeader hr, Outline.marker?_congr hx] at ho
      obtain ⟨hc, rfl⟩ := Outline.ofMarkers_eq_ok ho
      exact ⟨⟨className, lines, _, Outline.readHeader_cases hr,
        fun l m => Outline.marker?_eq_some_iff⟩, rfl, rfl, hc⟩

end Template

end NamedSql
