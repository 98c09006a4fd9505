import NamedSql.Proofs.Offsets.Analysis
import NamedSql.Proofs.Offsets.Markers
import NamedSql.Proofs.TextBehind

namespace NamedSql.Offsets

/-- How many of the ranges begin at an offset or in front of it. -/
def rangesUpTo (ranges : List (Nat × Nat)) (offset : Nat) : Nat :=
  (ranges.takeWhile fun range => range.1 ≤ offset).length

/-- The number of the line on which an offset stands. -/
def lineNumber (ranges : List (Nat × Nat)) (offset : Nat) : Nat :=
  max 1 (rangesUpTo ranges offset)

/-- What is collected from a template: the name that waits for its statement, and the statements. -/
structure Collection where
  name : Option String
  statements : List NamedStatement
deriving DecidableEq

/-- Collects the statement with the given span from the section that begins at `start`. -/
def collectStatement (policy : CommentPolicy) (masked : List Char) (ranges : List (Nat × Nat))
    (start : Nat) (found : Collection) (span : Nat × Nat) : Option Collection := do
  let sql ← slice? masked (start + span.1) (start + span.2)
  if (← removeComments sql).isEmpty then return found
  else
    let statement ← statementOf policy found.statements.length sql
    let analysis ← analyze statement.text.toList
    let line := lineNumber ranges (start + span.1)
    return ⟨none, found.statements ++ [⟨found.name, line, statement, analysis⟩]⟩

/-- Puts the statements of the section between two offsets behind those found before it. -/
def collectSection (policy : CommentPolicy) (masked : List Char) (ranges : List (Nat × Nat))
    (start stop : Nat) (marker : Option Marker) (found : List NamedStatement) :
    Option (List NamedStatement) := do
  let spans ← splitSpans (← slice? masked start stop)
  let collected ← spans.foldlM (collectStatement policy masked ranges start)
    ⟨marker.map Marker.name, found⟩
  return collected.statements

/-- Puts the statements of all sections from `start` on behind those found before them. `pending` is
the marker of the first of these sections, and `size` is the end of the text. -/
def collectSections (policy : CommentPolicy) (masked : List Char) (ranges : List (Nat × Nat))
    (size start : Nat) (pending : Option Marker) (found : List NamedStatement) :
    List MarkerAt → Option (List NamedStatement)
  | [] => collectSection policy masked ranges start size pending found
  | next :: rest => do
    let found ← collectSection policy masked ranges start next.range.1 pending found
    collectSections policy masked ranges size next.range.2 (some next.toMarker) found rest

/-- Reads a template with this class name. -/
def parseBody (policy : CommentPolicy) (text : List Char) (ranges : List (Nat × Nat))
    (className : Option String) : Option (Except TemplateError Template) := do
  let markers ← markers text ranges (headerSize className)
  let masked ← mask text (ranges.take (headerSize className) ++ markers.map MarkerAt.range)
  match Outline.checkNames [] (markers.map MarkerAt.toMarker) with
  | .error e => return .error e
  | .ok _ =>
    let statements ← collectSections policy masked ranges (byteLength text) 0 none [] markers
    return .ok ⟨className, statements⟩

/-- Reads a template. -/
def parse (policy : CommentPolicy) (text : List Char) : Option (Except TemplateError Template) := do
  let ranges := lineRanges text
  match ← readHeader text ranges with
  | .error e => return .error e
  | .ok className => parseBody policy text ranges className

variable {policy : CommentPolicy} {masked : List Char} {ranges : List (Nat × Nat)}
  {lines : List Line}

theorem follows_masked (blanked : Line → Bool) {start : Position}
    (h : Line.Follows start lines) :
    Line.Follows start (lines.map fun l => if blanked l then l.blank else l) := by
  have hhead {l : Line} {lines : List Line} {start : Position}
      (h : Line.Follows start (l :: lines)) :
      Line.Follows start ((if blanked l then l.blank else l) :: lines) := by
    split
    · exact h.blank_head
    · exact h
  induction h with
  | nil => exact .nil
  | last place content returns => exact hhead (.last place content returns)
  | cons place content ending onlyReturns _ ih =>
    exact hhead (.cons place content ending onlyReturns ih)

theorem rangesUpTo_cons {start : Position} {l : Line} (place : l.start = start)
    (lines : List Line) (k : Nat) :
    rangesUpTo ((l :: lines).map Line.contentSpan) (start.byte + k) =
      rangesUpTo (lines.map Line.contentSpan) (start.byte + k) + 1 := by
  rw [rangesUpTo, List.map_cons, List.takeWhile_cons_of_pos (by simp [Line.contentSpan, place]),
    List.length_cons]
  rfl

/-- None of the lines begins in front of the first one. -/
theorem rangesUpTo_eq_zero {start : Position} (h : Line.Follows start lines) {offset : Nat}
    (ho : offset < start.byte) : rangesUpTo (lines.map Line.contentSpan) offset = 0 := by
  cases lines with
  | nil => rfl
  | cons l lines =>
    refine congrArg List.length (List.takeWhile_cons_of_neg ?_)
    rw [Line.contentSpan, h.start_head, decide_eq_true_eq]
    exact Nat.not_le_of_lt ho

theorem newline_not_mem_of_append {body front es : List Char} {c : Char} (hb : '\n' ∉ body)
    (h : body ++ ['\n'] = front ++ c :: es) : '\n' ∉ front := by
  have hp : front <+: body ++ ['\n'] := h ▸ List.prefix_append front (c :: es)
  rcases List.prefix_concat_iff.mp hp with hp | hp
  · rw [h] at hp
    simp at hp
  · exact fun hm => hb (hp.subset hm)

/-- A character of a text of two parts stands in the second part or in the first. -/
theorem append_cons_cases {as bs front back : List Char} {c : Char}
    (h : as ++ bs = front ++ c :: back) :
    (∃ es, front = as ++ es ∧ bs = es ++ c :: back) ∨ ∃ e es, as = front ++ e :: es := by
  rcases List.append_eq_append_iff.mp h with ⟨es, hf, hb⟩ | ⟨es, ha, hb⟩
  · exact .inl ⟨es, hf, hb⟩
  · cases es with
    | nil => exact .inl ⟨[], by rw [ha, List.append_nil, List.append_nil], hb.symm⟩
    | cons e es => exact .inr ⟨e, es, ha⟩

/-- As many lines begin at a character or in front of it as there are newlines in front of it, and
one more. -/
theorem rangesUpTo_eq {start : Position} (h : Line.Follows start lines)
    {front back : List Char} {c : Char} (hj : Line.join lines = front ++ c :: back) :
    rangesUpTo (lines.map Line.contentSpan) (start.byte + byteLength front) =
      front.count '\n' + 1 := by
  induction h generalizing front with
  | nil => simp [Line.join] at hj
  | @last start l place content returns =>
    have hn : '\n' ∉ front := by
      intro hm
      have hl : '\n' ∈ Line.join [l] := hj ▸ List.mem_append_left _ hm
      have hl : '\n' ∈ l.content ++ l.ending := by simpa [Line.join, Line.text] using hl
      rcases List.mem_append.mp hl with hl | hl
      · exact content hl
      · exact absurd (returns _ hl) (by decide)
    rw [rangesUpTo_cons place, List.count_eq_zero_of_not_mem hn]
    rfl
  | @cons start l lines returns place content ending onlyReturns rest ih =>
    rw [rangesUpTo_cons place]
    have hbody : '\n' ∉ l.content ++ returns := List.not_mem_append content
      fun hm => absurd (onlyReturns _ hm) (by decide)
    have htext : l.text = l.content ++ returns ++ ['\n'] := by
      rw [Line.text, ending, List.append_assoc]
    have hjoin : l.text ++ Line.join lines = front ++ c :: back := hj
    rcases append_cons_cases hjoin with ⟨es, hfront, hrest⟩ | ⟨e, es, hl⟩
    · have hcount : l.text.count '\n' = 1 := by
        rw [htext, List.count_append, List.count_eq_zero_of_not_mem hbody]
        rfl
      have hes := ih hrest
      rw [Position.byte_after, Nat.add_assoc, ← byteLength_append, ← hfront] at hes
      rw [hes, hfront, List.count_append, hcount, Nat.add_comm 1]
    · have hlt : start.byte + byteLength front < (start.after l.text).byte := by
        have hpos := byteLength_pos (List.cons_ne_nil e es)
        rw [Position.byte_after, hl, byteLength_append]
        omega
      rw [rangesUpTo_eq_zero rest hlt,
        List.count_eq_zero_of_not_mem (newline_not_mem_of_append hbody (htext.symm.trans hl))]

/-- The line ranges of a template number the lines of the text that is left when some of them are
blanked. -/
theorem lineNumber_eq (h : Line.Follows .origin lines) (blanked : Line → Bool)
    {front back : List Char} {c : Char} (hm : Outline.masked blanked lines = front ++ c :: back) :
    lineNumber (lines.map Line.contentSpan) (byteLength front) =
      (Position.origin.after front).line := by
  have hspans : (lines.map fun l => if blanked l then l.blank else l).map Line.contentSpan =
      lines.map Line.contentSpan := by
    rw [List.map_map]
    refine List.map_congr_left fun l _ => ?_
    rw [Function.comp_apply]
    split
    · exact contentSpan_blank l
    · rfl
  have hlength := rangesUpTo_eq (follows_masked blanked h) hm
  have hzero : Position.origin.byte + byteLength front = byteLength front := Nat.zero_add _
  rw [hspans, hzero] at hlength
  rw [lineNumber, hlength, Nat.max_eq_right (Nat.le_add_left ..), Position.line_after, Nat.add_comm]
  rfl

/-- The ranges give the number of the line of each character. -/
def Numbers (ranges : List (Nat × Nat)) (masked : List Char) : Prop :=
  ∀ front c back, masked = front ++ c :: back →
    lineNumber ranges (byteLength front) = (Position.origin.after front).line

/-- Collects the statement that an excerpt is, unless it is a comment. -/
def collect (policy : CommentPolicy) (found : Collection) (e : Excerpt) : Collection :=
  if isCommentOnly e.chars then found
  else ⟨none, found.statements ++ [.ofExcerpt policy found.statements.length found.name e]⟩

theorem collectStatement_eq {start : Nat} {span : Nat × Nat} {e : Excerpt}
    {front back : List Char} (hn : Numbers ranges masked)
    (hm : masked = front ++ (e.chars ++ back)) (hp : e.start = .after .origin front)
    (hne : e.chars ≠ []) (hstart : start + span.1 = e.start.byte)
    (hstop : start + span.2 = e.stop.byte) (found : Collection) :
    collectStatement policy masked ranges start found span = some (collect policy found e) := by
  have hs := slice?_append front e.chars back
  have hline : lineNumber ranges e.start.byte = e.start.line := by
    obtain ⟨c, cs, hc⟩ := List.exists_cons_of_ne_nil hne
    rw [hp, byte_after_origin]
    exact hn front c (cs ++ back) (by rw [hm, hc]; rfl)
  rw [← hm, ← byte_after_origin front, ← hp] at hs
  rw [collectStatement, hstart, hstop, Excerpt.stop, Position.byte_after, hs, hline]
  rw [Option.bind_eq_bind, Option.bind_some, removeComments_eq, Option.bind_eq_bind,
    Option.bind_some, collect]
  have hc : (stripComments e.chars).isEmpty = isCommentOnly e.chars := rfl
  rw [hc]
  split
  · rfl
  · rw [statementOf_eq, Option.bind_eq_bind, Option.bind_some, analyze_eq]
    rfl

/-- Gives the name to the first of the statements. -/
def nameFirst (name : Option String) : List Excerpt → List (Option String × Excerpt)
  | [] => []
  | first :: rest => (name, first) :: rest.map fun e => (none, e)

theorem nameFirst_none (es : List Excerpt) : nameFirst none es = es.map fun e => (none, e) := by
  cases es <;> rfl

theorem named_eq_nameFirst (s : Section) :
    s.named = nameFirst (s.marker.map Marker.name) s.statements := by
  unfold Section.named
  cases s.statements <;> rfl

/-- The statements with these names and numbers from `first` on. -/
def numbered (policy : CommentPolicy) (first : Nat) (named : List (Option String × Excerpt)) :
    List NamedStatement :=
  (named.zipIdx first).map fun x => .ofExcerpt policy x.2 x.1.1 x.1.2

theorem numbered_cons (policy : CommentPolicy) (first : Nat) (name : Option String) (e : Excerpt)
    (rest : List (Option String × Excerpt)) : numbered policy first ((name, e) :: rest) =
      .ofExcerpt policy first name e :: numbered policy (first + 1) rest :=
  rfl

@[simp] theorem length_numbered (policy : CommentPolicy) (first : Nat)
    (named : List (Option String × Excerpt)) :
    (numbered policy first named).length = named.length := by
  simp [numbered]

theorem numbered_append (policy : CommentPolicy) (first : Nat)
    (xs ys : List (Option String × Excerpt)) : numbered policy first (xs ++ ys) =
      numbered policy first xs ++ numbered policy (first + xs.length) ys := by
  rw [numbered, List.zipIdx_append, List.map_append]
  rfl

/-- The statements are collected under the names that they have, in their order. -/
theorem statements_foldl_collect (policy : CommentPolicy) (es : List Excerpt) (found : Collection) :
    (es.foldl (collect policy) found).statements = found.statements ++
      numbered policy found.statements.length
        (nameFirst found.name (es.filter fun e => !isCommentOnly e.chars)) := by
  induction es generalizing found with
  | nil => simp [nameFirst, numbered]
  | cons e es ih =>
    rw [List.foldl_cons, ih, collect]
    by_cases hc : isCommentOnly e.chars
    · rw [if_pos hc, List.filter_cons_of_neg (by simp [hc])]
    · rw [if_neg hc, List.filter_cons_of_pos (by simp [hc]), nameFirst_none, nameFirst,
        numbered_cons, List.length_append, List.append_assoc]
      rfl

/-- The statements of a section are cut out of the text at the offsets that they have in the
section, counted from its own. -/
theorem collectSection_eq (policy : CommentPolicy) {before opened after : List Char}
    (hn : Numbers ranges masked) (hm : masked = before ++ (opened ++ after))
    (marker : Option Marker) (found : List NamedStatement) :
    collectSection policy masked ranges (byteLength before) (byteLength before + byteLength opened)
      marker found = some (found ++ numbered policy found.length
        (Section.named ⟨marker, .after .origin before, opened⟩)) := by
  have hs := slice?_append before opened after
  rw [← hm] at hs
  have hspans := splitSpans_eq (String.ofList opened)
  rw [statementSpans, String.toList_ofList] at hspans
  have hstep : ∀ e ∈ Excerpt.ofScript .origin opened, ∀ found,
      collectStatement policy masked ranges (byteLength before) found e.span =
        some (collect policy found (e.behind before)) := by
    intro e he found
    obtain ⟨front, back, ht, hp, hne, -⟩ := Excerpt.eq_append_of_mem_ofScript he
    have hm' : masked = (before ++ front) ++ (e.chars ++ (back ++ after)) := by
      rw [hm, ht]
      simp
    have hp' : (e.behind before).start = .after .origin (before ++ front) := by
      rw [Excerpt.behind, hp, Position.behind_after, Position.behind_origin, Position.after_append]
    have hstop : byteLength before + e.span.2 = (e.behind before).stop.byte :=
      (Nat.add_assoc ..).symm
    exact collectStatement_eq (e := e.behind before) hn hm' hp' hne rfl hstop found
  have hexcerpts : Excerpt.ofScript (.after .origin before) opened =
      (Excerpt.ofScript .origin opened).map (.behind before) := by
    rw [← Position.behind_origin, Excerpt.ofScript_behind]
  rw [collectSection, hs, Option.bind_eq_bind, Option.bind_some, hspans, Option.bind_eq_bind,
    Option.bind_some, List.foldlM_map, foldlM_eq_some_foldl hstep, Option.bind_eq_bind,
    Option.bind_some, ← List.foldl_map, ← hexcerpts, statements_foldl_collect, named_eq_nameFirst]
  rfl

/-- The sections that lines are cut into when the text that is open in front of them belongs to the
first section. -/
def sectionsBehind (marker? : Line → Option Marker) (before opened : List Char)
    (pending : Option Marker) (lines : List Line) : List Section :=
  ⟨pending, .after .origin before, opened ++ (Outline.cutAtMarkers marker? lines).1⟩ ::
    (Outline.cutAtMarkers marker? lines).2

variable {marker? : Line → Option Marker} {before opened : List Char} {l : Line}

theorem sectionsBehind_cons_none (h : marker? l = none) (pending : Option Marker)
    (lines : List Line) : sectionsBehind marker? before opened pending (l :: lines) =
      sectionsBehind marker? before (opened ++ l.text) pending lines := by
  simp [sectionsBehind, Outline.cutAtMarkers, h]

/-- A marker ends the section in front of it. The section behind it begins where its name ends. -/
theorem sectionsBehind_cons_some {m : Marker} (h : marker? l = some m)
    (hf : Line.Follows (.after .origin (before ++ opened)) (l :: lines))
    (pending : Option Marker) : sectionsBehind marker? before opened pending (l :: lines) =
      ⟨pending, .after .origin before, opened⟩ ::
        sectionsBehind marker? (before ++ opened ++ l.blank.content) l.ending (some m) lines := by
  have hc : '\n' ∉ l.content := hf.newline_not_mem (List.mem_cons_self ..)
  have hcount : l.content.count '\n' = l.blank.content.count '\n' := by
    rw [List.count_eq_zero_of_not_mem hc]
    simp [Line.blank, List.count_replicate]
  have hstop : l.contentStop = .after .origin (before ++ opened ++ l.blank.content) := by
    rw [Line.contentStop, hf.start_head, Position.after_append _ (before ++ opened)]
    exact Position.after_congr (byteLength_replicate_space _).symm hcount _
  simp [sectionsBehind, Outline.cutAtMarkers, h, hstop]

theorem markersOf_cons_none (h : marker? l = none) (lines : List Line) :
    markersOf marker? (l :: lines) = markersOf marker? lines := by
  simp [markersOf, h]

theorem markersOf_cons_some {m : Marker} (h : marker? l = some m) (lines : List Line) :
    markersOf marker? (l :: lines) = ⟨m, l.contentSpan⟩ :: markersOf marker? lines := by
  simp [markersOf, h]

/-- The sections are cut out at the offsets of their markers, and all their statements are
collected. The text that is open in front of the lines belongs to the first section. -/
theorem collectSections_eq (policy : CommentPolicy) (before opened : List Char)
    (hn : Numbers ranges masked) (hf : Line.Follows (.after .origin (before ++ opened)) lines)
    (hm : masked = before ++ (opened ++ Outline.masked (fun l => (marker? l).isSome) lines))
    (pending : Option Marker) (found : List NamedStatement) :
    collectSections policy masked ranges (byteLength masked) (byteLength before) pending found
      (markersOf marker? lines) = some (found ++ numbered policy found.length
        ((sectionsBehind marker? before opened pending lines).flatMap Section.named)) := by
  induction lines generalizing before opened pending found with
  | nil =>
    have hsize : byteLength masked = byteLength before + byteLength opened := by
      simp [hm, Outline.masked, Line.join]
    rw [hsize]
    simpa [sectionsBehind, Outline.cutAtMarkers, markersOf, collectSections] using
      collectSection_eq policy hn hm pending found
  | cons l lines ih =>
    rw [masked_cons] at hm
    cases hl : marker? l with
    | none =>
      have hrest : Line.Follows (.after .origin (before ++ (opened ++ l.text))) lines := by
        rw [← List.append_assoc, Position.after_append]
        exact hf.tail
      rw [hl, Option.isSome_none, if_neg Bool.false_ne_true, ← List.append_assoc opened] at hm
      rw [markersOf_cons_none hl, sectionsBehind_cons_none hl, ih _ _ hrest hm]
    | some m =>
      have hrest : Line.Follows
          (.after .origin (before ++ opened ++ l.blank.content ++ l.ending)) lines := by
        rw [List.append_assoc _ l.blank.content, Position.after_append]
        exact hf.blank_head.tail
      have hstart : l.start.byte = byteLength before + byteLength opened := by
        rw [hf.start_head, byte_after_origin, byteLength_append]
      have hstop : l.contentStop.byte = byteLength (before ++ opened ++ l.blank.content) := by
        rw [Line.contentStop, Position.byte_after, hstart]
        simp [Line.blank, Nat.add_assoc]
      rw [hl, Option.isSome_some, if_pos rfl] at hm
      have hm' : masked = before ++ opened ++ l.blank.content ++
          (l.ending ++ Outline.masked (fun l => (marker? l).isSome) lines) := by
        rw [hm]
        simp [Line.text, Line.blank]
      rw [markersOf_cons_some hl, sectionsBehind_cons_some hl hf, collectSections, Line.contentSpan,
        hstart, hstop, collectSection_eq policy hn hm, Option.bind_eq_bind, Option.bind_some,
        ih _ _ hrest hm', List.flatMap_cons, numbered_append, List.append_assoc, List.length_append,
        length_numbered]

theorem byteLength_masked (blanked : Line → Bool) (lines : List Line) :
    byteLength (Outline.masked blanked lines) = byteLength (Line.join lines) := by
  induction lines with
  | nil => rfl
  | cons l lines ih =>
    have htext : byteLength (if blanked l then l.blank else l).text = byteLength l.text := by
      split
      · exact Line.byteLength_text_blank l
      · rfl
    rw [masked_cons, byteLength_append, htext, ih, ← byteLength_append]
    rfl

variable {text : String} {className : Option String}

theorem byteLength_join_of_readHeader
    (h : Outline.readHeader (Line.ofText text.toList) = .ok (className, lines)) :
    byteLength (Line.join lines) = byteLength text.toList := by
  rw [← Line.join_ofText text.toList]
  rcases Outline.readHeader_cases h with ⟨-, rfl⟩ | ⟨name, first, rest, -, ht, rfl⟩
  · rfl
  · simp [ht, Line.join]

theorem parseBody_eq
    (h : Outline.readHeader (Line.ofText text.toList) = .ok (className, lines)) :
    parseBody policy text.toList (lineRanges text.toList) className =
      some (Template.parse policy text) := by
  have hf := Outline.follows_of_readHeader h
  have hblank (l : Line) : (Outline.markerIn lines l.blank).isSome = false := by
    rw [Outline.markerIn, marker?_blank]
    rfl
  have hn : Numbers (lineRanges text.toList)
      (Outline.masked (fun l => (Outline.markerIn lines l).isSome) lines) := by
    intro front c back hm
    rw [lineRanges_of_readHeader h]
    exact lineNumber_eq hf _ hm
  have hsections := collectSections_eq policy [] [] hn hf rfl none []
  rw [byteLength_masked, byteLength_join_of_readHeader h, byteLength_nil] at hsections
  rw [parseBody, markers_eq h, Option.bind_eq_bind, Option.bind_some, map_range_markersOf,
    mask_eq h hblank, Option.bind_eq_bind, Option.bind_some, map_toMarker_markersOf,
    Template.parse_of_readHeader h]
  cases Outline.checkNames [] (lines.filterMap (Outline.markerIn lines)) with
  | error e => rfl
  | ok _ =>
    simp only [hsections]
    rfl

/-- The template is the one that the text is. -/
theorem parse_eq (policy : CommentPolicy) (text : String) :
    parse policy text.toList = some (Template.parse policy text) := by
  rw [parse, readHeader_eq, Option.bind_eq_bind, Option.bind_some]
  cases h : Outline.readHeader (Line.ofText text.toList) with
  | error e =>
    rw [Template.parse_of_error h]
    rfl
  | ok read => exact parseBody_eq h

/-- No reading of a text by its byte offsets fails. The first four fields say what it could fail at;
nothing that fails gives a result, and the others give theirs. -/
structure InBounds (policy : CommentPolicy) (text : String) : Prop where
  /-- A slice has its offsets in order, in the text and on character boundaries. -/
  slice : ∀ (part : String) (start stop : Nat), (slice? part.toList start stop).isSome ↔
    start ≤ stop ∧ stop ≤ part.utf8ByteSize ∧
      (String.Pos.Raw.mk start).IsValid part ∧ (String.Pos.Raw.mk stop).IsValid part
  byte : ∀ (part : String) (offset : Nat),
    (byteAt? part.toList offset).isSome ↔ offset < part.utf8ByteSize
  difference : ∀ a b, (sub? a b).isSome ↔ b ≤ a
  progress : ∀ pos next, (ahead? pos next).isSome ↔ pos < next
  segments : segments text.toList = some (located .origin (Segment.ofText text.toList))
  statements : splitTexts text.toList = some ((splitStatements text).map String.toList)
  withoutComments : removeComments text.toList = some (NamedSql.removeComments text).toList
  parameters : parameters text.toList = some ((NamedSql.parameters text).map String.toList)
  tokens : tokens text.toList = some (Token.ofText text.toList)
  template : parse policy text.toList = some (Template.parse policy text)

/-- All offsets at which a text is read are in bounds. -/
theorem inBounds (policy : CommentPolicy) (text : String) : InBounds policy text where
  slice _ _ _ := isSome_slice?_iff
  byte part offset := by rw [isSome_byteAt?_iff, utf8ByteSize_eq_byteLength]
  difference a b := by simp [sub?]
  progress pos next := by simp [ahead?]
  segments := segments_eq text.toList
  statements := splitTexts_eq text
  withoutComments := by
    rw [removeComments_eq, NamedSql.removeComments, String.toList_ofList]
  parameters := by
    rw [parameters_eq, NamedSql.parameters, List.map_map]
    simp [Function.comp_def]
  tokens := tokens_eq text.toList
  template := parse_eq policy text

end NamedSql.Offsets
