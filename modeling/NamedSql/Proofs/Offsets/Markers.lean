import NamedSql.Proofs.MarkerPlaces
import NamedSql.Proofs.Offsets.Statements
import NamedSql.Proofs.SourceFidelity

namespace NamedSql.Offsets

/-- The offsets of the contents of lines, the first of which begins at `start`. -/
def rangesFrom (start : Nat) : List (List Char) → List (Nat × Nat)
  | [] => []
  | chars :: rest =>
    (start, start + byteLength (dropEndWhile Line.isEnding chars)) ::
      rangesFrom (start + byteLength chars) rest

/-- The offsets of the contents of the lines of a text. -/
def lineRanges (text : List Char) : List (Nat × Nat) :=
  rangesFrom 0 (Line.cut text)

/-- Reads the first line as a header. -/
def readHeader (text : List Char) (ranges : List (Nat × Nat)) :
    Option (Except TemplateError (Option String)) :=
  match ranges with
  | [] => return .ok none
  | range :: _ => do
    let content ← sliceSpan? text range
    return (Outline.readHeader [⟨.origin, content, []⟩]).map Prod.fst

/-- The number of lines that the header takes. -/
def headerSize (className : Option String) : Nat :=
  if className.isSome then 1 else 0

/-- A name marker with the offsets of the content of its line. -/
structure MarkerAt extends Marker where
  range : Nat × Nat
deriving DecidableEq

/-- What a line that looks like a marker gives. The line comes with the number of those before
it. -/
def candidateAt (text : List Char) (line : (Nat × Nat) × Nat) : Option (Option MarkerAt) := do
  let content ← sliceSpan? text line.1
  return (Line.markerName? ⟨.origin, content, []⟩).map fun name => ⟨⟨name, line.2 + 1⟩, line.1⟩

/-- The lines that look like markers, when the header takes the first `skipped` lines. -/
def candidates (text : List Char) (ranges : List (Nat × Nat)) (skipped : Nat) :
    Option (List MarkerAt) := do
  return (← (ranges.zipIdx.drop skipped).mapM (candidateAt text)).filterMap id

/-- The text from an offset on, with spaces between the offsets of each range. -/
def maskFrom (text : List Char) (pos : Nat) : List (Nat × Nat) → Option (List Char)
  | [] => slice? text pos (byteLength text)
  | range :: rest => do
    let kept ← slice? text pos range.1
    let masked ← maskFrom text range.2 rest
    return kept ++ List.replicate (range.2 - range.1) ' ' ++ masked

/-- The text with spaces between the offsets of each range. -/
def mask (text : List Char) (ranges : List (Nat × Nat)) : Option (List Char) :=
  maskFrom text 0 (ranges.mergeSort fun a b => a.1 ≤ b.1)

/-- The region of a segment, unless that is code or a comment to the end of the line. -/
def SegmentAt.opaqueRegion? : SegmentAt → Option RegionAt
  | .code _ _ => none
  | .region r => if r.kind = .lineComment then none else some r

/-- The strings, block comments and dollar-quoted blocks of a script. -/
def opaqueRegions (script : List Char) : Option (List RegionAt) := do
  return (← segments script).filterMap SegmentAt.opaqueRegion?

/-- Whether an offset lies strictly inside the region. -/
def RegionAt.encloses (r : RegionAt) (offset : Nat) : Bool :=
  r.start < offset && offset < r.stop

/-- The markers of a template, when the header takes the first `skipped` lines. -/
def markers (text : List Char) (ranges : List (Nat × Nat)) (skipped : Nat) :
    Option (List MarkerAt) := do
  let candidates ← candidates text ranges skipped
  let unmarked ← mask text (ranges.take skipped ++ candidates.map MarkerAt.range)
  let regions ← opaqueRegions unmarked
  return candidates.filter fun m => !regions.any (·.encloses m.range.1)

variable {text : List Char}

theorem rangesFrom_eq (start : Position) (chars : List (List Char)) :
    rangesFrom start.byte chars = (Line.locate start chars).map Line.contentSpan := by
  induction chars generalizing start with
  | nil => rfl
  | cons cs rest ih =>
    rw [rangesFrom, Line.locate, List.map_cons, ← ih]
    rfl

theorem lineRanges_eq (text : List Char) :
    lineRanges text = (Line.ofText text).map Line.contentSpan :=
  rangesFrom_eq .origin (Line.cut text)

/-- The content of a line is cut out on character boundaries. -/
theorem sliceSpan?_line (front : List Line) {back : List Line} {l : Line}
    (h : Line.ofText text = front ++ l :: back) :
    sliceSpan? text l.contentSpan = some l.content := by
  have hf := Line.follows_ofText text
  have ht := Line.join_ofText text
  rw [h] at hf ht
  have hstart : l.start.byte = byteLength (Line.join front) := by
    rw [hf.start_eq, byte_after_origin]
  have hjoin : Line.join (front ++ l :: back) =
      Line.join front ++ (l.content ++ (l.ending ++ Line.join back)) := by
    simp [Line.join, Line.text]
  rw [← ht, hjoin, sliceSpan?, Line.contentSpan, Line.contentStop, Position.byte_after, hstart]
  exact slice?_append ..

theorem rangesFrom_le {start : Nat} {chars : List (List Char)} {range : Nat × Nat}
    (h : range ∈ rangesFrom start chars) : start ≤ range.1 := by
  induction chars generalizing start with
  | nil => cases h
  | cons cs rest ih =>
    rcases List.mem_cons.mp h with rfl | h
    · exact Nat.le_refl _
    · exact Nat.le_of_add_right_le (ih h)

theorem pairwise_rangesFrom (start : Nat) (chars : List (List Char)) :
    (rangesFrom start chars).Pairwise fun a b => a.1 ≤ b.1 := by
  induction chars generalizing start with
  | nil => exact .nil
  | cons cs rest ih =>
    refine .cons ?_ (ih _)
    intro range h
    exact Nat.le_of_add_right_le (rangesFrom_le h)

variable {className : Option String} {lines : List Line}

theorem readHeader_eq (text : List Char) : readHeader text (lineRanges text) =
    some ((Outline.readHeader (Line.ofText text)).map Prod.fst) := by
  rw [lineRanges_eq]
  cases h : Line.ofText text with
  | nil => rfl
  | cons first rest =>
    rw [List.map_cons, readHeader, sliceSpan?_line [] h, Option.bind_eq_bind,
      Option.bind_some]
    have hl : Header.ofLine ⟨.origin, first.content, []⟩ = Header.ofLine first := rfl
    simp only [Outline.readHeader, hl]
    cases Header.ofLine first with
    | absent => rfl
    | empty => rfl
    | named name =>
      simp only
      split <;> rfl

theorem contentSpan_blank (l : Line) : l.blank.contentSpan = l.contentSpan := by
  simp [Line.contentSpan, Line.contentStop, Line.blank]

/-- The ranges of the lines are the same when the header is blank. -/
theorem lineRanges_of_readHeader
    (h : Outline.readHeader (Line.ofText text) = .ok (className, lines)) :
    lineRanges text = lines.map Line.contentSpan := by
  rw [lineRanges_eq]
  rcases Outline.readHeader_cases h with ⟨-, rfl⟩ | ⟨name, first, rest, -, ht, rfl⟩
  · rfl
  · rw [ht, List.map_cons, List.map_cons, contentSpan_blank]

/-- The markers with their offsets when `marker?` finds them. -/
def markersOf (marker? : Line → Option Marker) (lines : List Line) : List MarkerAt :=
  lines.filterMap fun l => (marker? l).map fun m => ⟨m, l.contentSpan⟩

theorem map_range_markersOf (marker? : Line → Option Marker) (lines : List Line) :
    (markersOf marker? lines).map MarkerAt.range =
      (lines.filter fun l => (marker? l).isSome).map Line.contentSpan := by
  induction lines with
  | nil => rfl
  | cons l lines ih =>
    rw [markersOf] at ih ⊢
    cases hm : marker? l with
    | none => simpa [hm] using ih
    | some m => simpa [hm] using ih

theorem map_toMarker_markersOf (marker? : Line → Option Marker) (lines : List Line) :
    (markersOf marker? lines).map MarkerAt.toMarker = lines.filterMap marker? := by
  rw [markersOf, List.map_filterMap]
  simp [Function.comp_def]

theorem markerName?_blank (l : Line) : l.blank.markerName? = none := by
  have ht : trim l.blank.content = [] := trim_eq_nil_iff.mpr isBlank_of_mem_spaces
  rw [Line.markerName?, ht]
  rfl

/-- Any line that looks like a marker is one if there are no regions. -/
theorem marker?_nil (l : Line) :
    Outline.marker? [] l = l.markerName?.map fun name => ⟨name, l.start.line⟩ :=
  rfl

theorem marker?_blank (regions : List (Nat × Region)) (l : Line) :
    Outline.marker? regions l.blank = none := by
  simp [Outline.marker?, markerName?_blank]

theorem markersOf_blank (regions : List (Nat × Region)) (l : Line) (lines : List Line) :
    markersOf (Outline.marker? regions) (l.blank :: lines) =
      markersOf (Outline.marker? regions) lines := by
  simp [markersOf, marker?_blank]

theorem candidateAt_eq {front back : List Line} {l : Line}
    (h : Line.ofText text = front ++ l :: back) :
    candidateAt text (l.contentSpan, front.length) =
      some ((Outline.marker? [] l).map fun m => ⟨m, l.contentSpan⟩) := by
  have hf := Line.follows_ofText text
  rw [h] at hf
  have hline : l.start.line = front.length + 1 := by
    rw [hf.line_start, Nat.add_comm]
    rfl
  rw [candidateAt, sliceSpan?_line front h, marker?_nil, hline]
  simp [Function.comp_def, Line.markerName?]

theorem candidates_drop (text : List Char) (skipped : Nat) :
    candidates text (lineRanges text) skipped =
      some (markersOf (Outline.marker? []) ((Line.ofText text).drop skipped)) := by
  have hm : ∀ x ∈ (Line.ofText text).zipIdx.drop skipped,
      (candidateAt text ∘ Prod.map Line.contentSpan id) x =
        some ((Outline.marker? [] x.1).map fun m => ⟨m, x.1.contentSpan⟩) := by
    intro x hx
    obtain ⟨hi, he⟩ := List.getElem?_eq_some_iff.mp
      (List.mem_zipIdx_iff_getElem?.mp (List.mem_of_mem_drop hx))
    have hlines : Line.ofText text =
        (Line.ofText text).take x.2 ++ x.1 :: (Line.ofText text).drop (x.2 + 1) := by
      rw [← he, List.getElem_cons_drop, List.take_append_drop]
    have hc := candidateAt_eq hlines
    rwa [List.length_take, Nat.min_eq_left (Nat.le_of_lt hi)] at hc
  have hfst := congrArg (List.drop skipped) (List.zipIdx_map_fst 0 (Line.ofText text))
  rw [← List.map_drop] at hfst
  rw [candidates, lineRanges_eq, List.zipIdx_map, ← List.map_drop, List.mapM_map,
    mapM_eq_some_map hm, Option.bind_eq_bind, Option.bind_some, List.filterMap_map, ← hfst,
    markersOf, List.filterMap_map]
  rfl

/-- The lines that look like markers are found, in their order. -/
theorem candidates_eq (h : Outline.readHeader (Line.ofText text) = .ok (className, lines)) :
    candidates text (lineRanges text) (headerSize className) =
      some (markersOf (Outline.marker? []) lines) := by
  rw [candidates_drop]
  rcases Outline.readHeader_cases h with ⟨rfl, rfl⟩ | ⟨name, first, rest, rfl, ht, rfl⟩
  · rfl
  · rw [ht, markersOf_blank]
    rfl

theorem masked_cons (blanked : Line → Bool) (l : Line) (lines : List Line) :
    Outline.masked blanked (l :: lines) =
      (if blanked l then l.blank else l).text ++ Outline.masked blanked lines :=
  rfl

/-- The lines from `before` on are blanked by their offsets. The text that is open in front of them
is kept. -/
theorem maskFrom_eq {blanked : Line → Bool} {lines : List Line} (before opened : List Char)
    (hf : Line.Follows (.after .origin (before ++ opened)) lines)
    (ht : text = before ++ (opened ++ Line.join lines)) :
    maskFrom text (byteLength before) ((lines.filter blanked).map Line.contentSpan) =
      some (opened ++ Outline.masked blanked lines) := by
  induction lines generalizing before opened with
  | nil =>
    have hs := slice?_append before opened []
    rw [← byteLength_append, List.append_nil] at hs
    have ht' : text = before ++ opened := by simpa [Line.join] using ht
    simpa [maskFrom, ht', Outline.masked, Line.join] using hs
  | cons l lines ih =>
    by_cases hb : blanked l
    · have hstart : l.start.byte = byteLength before + byteLength opened := by
        rw [hf.start_head, byte_after_origin, byteLength_append]
      have hrest := ih (before ++ opened ++ l.content) l.ending
        (by rw [List.append_assoc _ l.content, Position.after_append]; exact hf.tail)
        (by simp [ht, Line.join, Line.text])
      have hs := slice?_append before opened (Line.join (l :: lines))
      rw [← ht] at hs
      have hstop : l.contentStop.byte = byteLength (before ++ opened ++ l.content) := by
        rw [Line.contentStop, Position.byte_after, hstart, byteLength_append, byteLength_append]
      have hlength : byteLength (before ++ opened ++ l.content) -
          (byteLength before + byteLength opened) = byteLength l.content := by
        rw [byteLength_append, byteLength_append, Nat.add_sub_cancel_left]
      rw [List.filter_cons_of_pos hb, List.map_cons, maskFrom, Line.contentSpan, hstart, hs, hstop,
        hrest, hlength, masked_cons, if_pos hb]
      simp [Line.blank, Line.text]
    · have hrest := ih before (opened ++ l.text)
        (by rw [← List.append_assoc, Position.after_append]; exact hf.tail)
        (by simp [ht, Line.join])
      rw [List.filter_cons_of_neg hb, hrest, masked_cons, if_neg hb, List.append_assoc]

/-- Blanking the header and some other lines by their offsets blanks these lines. -/
theorem mask_eq (h : Outline.readHeader (Line.ofText text) = .ok (className, lines))
    {blanked : Line → Bool} (hb : ∀ l : Line, blanked l.blank = false) :
    mask text ((lineRanges text).take (headerSize className) ++
      (lines.filter blanked).map Line.contentSpan) = some (Outline.masked blanked lines) := by
  have hsorted {ranges : List (Nat × Nat)} (hr : ranges.Sublist (lineRanges text)) :
      ranges.mergeSort (fun a b => a.1 ≤ b.1) = ranges := by
    refine List.mergeSort_of_pairwise ((List.Pairwise.sublist hr (pairwise_rangesFrom _ _)).imp ?_)
    exact fun hab => decide_eq_true hab
  have hf := Line.follows_ofText text
  have hj := Line.join_ofText text
  have hl := lineRanges_eq text
  rcases Outline.readHeader_cases h with ⟨rfl, rfl⟩ | ⟨name, first, rest, rfl, ht, rfl⟩
  · rw [headerSize, Option.isSome_none, if_neg Bool.false_ne_true, List.take_zero, List.nil_append,
      mask, hsorted (hl ▸ List.filter_sublist.map _)]
    exact maskFrom_eq [] [] hf hj.symm
  · rw [ht] at hf hj hl
    have hranges : (lineRanges text).take 1 ++
        ((first.blank :: rest).filter blanked).map Line.contentSpan =
          first.contentSpan :: (rest.filter blanked).map Line.contentSpan := by
      rw [hl, List.filter_cons_of_neg (by simp [hb])]
      rfl
    have hsub : (first.contentSpan :: (rest.filter blanked).map Line.contentSpan).Sublist
        (lineRanges text) := by
      rw [hl]
      exact (List.filter_sublist.map _).cons_cons _
    have hspan : first.contentSpan = (0, byteLength first.content) := by
      rw [Line.contentSpan, Line.contentStop, hf.start_head, byte_after_origin]
      rfl
    have hs : slice? text 0 0 = some [] := slice?_append [] [] text
    have hrest : maskFrom text (byteLength first.content)
        ((rest.filter blanked).map Line.contentSpan) =
          some (first.ending ++ Outline.masked blanked rest) :=
      maskFrom_eq _ _ hf.tail (by rw [← hj]; simp [Line.join, Line.text])
    rw [headerSize, Option.isSome_some, if_pos rfl, hranges, mask, hsorted hsub, hspan, maskFrom,
      hs, hrest, masked_cons, hb]
    simp [Line.blank, Line.text]

theorem opaqueRegions_eq (script : List Char) : opaqueRegions script =
    some ((Outline.opaqueRegions script).map fun found => .ofRegion found.1 found.2) := by
  rw [opaqueRegions, segments_eq, located, Option.bind_eq_bind, Option.bind_some,
    List.filterMap_map, Outline.opaqueRegions, List.map_filterMap]
  refine congrArg some (List.filterMap_congr ?_)
  intro found _
  obtain ⟨start, s⟩ := found
  cases s with
  | code chars => rfl
  | region r =>
    by_cases hk : r.kind = .lineComment
    · simp [SegmentAt.ofSegment, SegmentAt.opaqueRegion?, RegionAt.ofRegion, hk]
    · simp [SegmentAt.ofSegment, SegmentAt.opaqueRegion?, RegionAt.ofRegion, hk]

/-- The lines that look like markers are left that do not begin inside a region. -/
theorem filter_markersOf (script : List Char) (lines : List Line) :
    ((markersOf (Outline.marker? []) lines).filter fun m =>
      !((Outline.opaqueRegions script).map fun found =>
        RegionAt.ofRegion found.1 found.2).any (·.encloses m.range.1)) =
          markersOf (Outline.marker? (Outline.opaqueRegions script)) lines := by
  rw [markersOf, List.filter_filterMap, markersOf]
  refine List.filterMap_congr ?_
  intro l _
  have hany : ((Outline.opaqueRegions script).map fun found =>
      RegionAt.ofRegion found.1 found.2).any (·.encloses l.start.byte) =
        (Outline.opaqueRegions script).any fun found => found.2.encloses found.1 l.start.byte := by
    rw [List.any_map]
    rfl
  rw [marker?_nil, Outline.marker?]
  cases l.markerName? with
  | none => simp
  | some name =>
    simp only [Option.map_some, Option.filter_some, Line.contentSpan, hany]
    cases (Outline.opaqueRegions script).any _ <;> rfl

/-- The markers of a template are found, in their order. -/
theorem markers_eq (h : Outline.readHeader (Line.ofText text) = .ok (className, lines)) :
    markers text (lineRanges text) (headerSize className) =
      some (markersOf (Outline.markerIn lines) lines) := by
  have hlooks : (fun l => (Outline.marker? [] l).isSome) =
      fun l : Line => l.markerName?.isSome := by
    funext l
    rw [marker?_nil, Option.isSome_map]
  have hblank (l : Line) : (Outline.marker? [] l.blank).isSome = false := by
    rw [marker?_blank]
    rfl
  have hregions := Outline.marker?_congr
    (Outline.extents_withoutMarkers (Outline.follows_of_readHeader h))
  rw [markers, candidates_eq h, Option.bind_eq_bind, Option.bind_some, map_range_markersOf,
    mask_eq h hblank, hlooks, ← Outline.withoutMarkers_eq, Option.bind_eq_bind, Option.bind_some,
    opaqueRegions_eq, Option.bind_eq_bind, Option.bind_some, filter_markersOf, hregions]
  rfl

end NamedSql.Offsets
