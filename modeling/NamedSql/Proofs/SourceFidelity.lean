import NamedSql.Proofs.SinglePass

namespace NamedSql

namespace Line

def contentSpan (l : Line) : Nat × Nat :=
  (l.start.byte, l.contentStop.byte)

/-- A character that is not blank stays where it is unless it is on a marker line. -/
theorem charAt_separate {marker? : Line → Option Marker} {lines : List Line} {start : Position}
    (hf : Follows start lines) (hm : ∀ l ∈ lines, (marker? l).isSome → l.content ≠ [])
    {k : Nat} {c : Char} (h : CharAt (join lines) k c) (hb : isBlank c = false) :
    (∃ l ∈ lines, (marker? l).isSome ∧ InSpan (start.byte + k) l.contentSpan) ∨
      CharAt (join (lines.map (Outline.separate marker?))) k c := by
  induction lines generalizing start k with
  | nil => exact .inr h
  | cons l lines ih =>
    obtain ⟨hl, hrest⟩ := List.forall_mem_cons.mp hm
    have hstart : l.start = start := hf.start_head
    rw [join_cons, charAt_append_iff] at h
    rw [List.map_cons, join_cons, charAt_append_iff, Outline.byteLength_text_separate hl]
    rcases h with h | ⟨j, h, rfl⟩
    · cases hmark : marker? l with
      | none => exact .inr (.inl (by rwa [Outline.separate_of_none hmark]))
      | some m =>
        refine .inl ⟨l, List.mem_cons_self .., by simp [hmark], ?_⟩
        rcases charAt_append_iff.mp h with h | ⟨i, h, -⟩
        · have := h.lt
          simp only [InSpan, contentSpan, contentStop, hstart, Position.byte_after]
          omega
        · have := hf.isBlank_of_mem_ending (List.mem_cons_self ..) c h.mem
          simp [hb] at this
    · rcases ih hf.tail hrest h with ⟨k, hk, hmark, hin⟩ | h
      · refine .inl ⟨k, List.mem_cons_of_mem l hk, hmark, ?_⟩
        rwa [Position.byte_after, Nat.add_assoc] at hin
      · exact .inr (.inr ⟨j, h, rfl⟩)

end Line

namespace Template

/-- What a character of a template can belong to. -/
inductive Place
  | header
  | marker
  | statement
  | fragment
  | separator
deriving DecidableEq

namespace Layout
variable {text : String} (L : Layout text)

/-- The pieces that are nothing but comments. -/
def fragments : List Excerpt :=
  L.excerpts.filter fun e => isCommentOnly e.chars

/-- Whether the byte `k` is in a place of the given kind. -/
def At (k : Nat) : Place → Prop
  | .header => L.className.isSome ∧ ∃ l ∈ (Line.ofText text.toList).head?, InSpan k l.contentSpan
  | .marker => ∃ l ∈ L.lines, (L.marker? l).isSome ∧ InSpan k l.contentSpan
  | .statement => ∃ e ∈ L.statements, InSpan k e.span
  | .fragment => ∃ e ∈ L.fragments, InSpan k e.span
  | .separator => CharAt text.toList k ';' ∧ TopSemicolon L.script k

/-- The header line and the blanks in its place. Both are empty when there is no header. -/
structure Head (head blanks : List Char) : Prop where
  text : ∃ rest, text.toList = head ++ rest ∧ Line.join L.lines = blanks ++ rest
  script : ∃ rest, L.script = blanks ++ rest
  bytes : byteLength blanks = byteLength head
  newlines : blanks.count '\n' = head.count '\n'
  blank : ∀ c ∈ blanks, isBlank c
  markers : ∀ l ∈ L.lines, (L.marker? l).isSome → byteLength head ≤ l.start.byte
  place : ∀ k, L.At k .header ↔ k < byteLength head

theorem exists_head : ∃ head blanks, L.Head head blanks := by
  rcases L.header with ⟨hn, hl⟩ | ⟨name, first, rest, hn, ht, hl⟩
  · refine ⟨[], [], ⟨text.toList, rfl, ?_⟩, ⟨L.script, rfl⟩, rfl, rfl, by simp, by simp, ?_⟩
    · rw [hl, Line.join_ofText]
      rfl
    · simp [At, hn]
  · have hf := Line.follows_ofText text.toList
    rw [ht] at hf
    have hstart : first.start = .origin := hf.start_head
    have hblank : ∀ c ∈ first.blank.content, isBlank c := isBlank_of_mem_spaces
    have hbytes : byteLength first.blank.content = byteLength first.content :=
      byteLength_replicate_space _
    have hmark : L.marker? first.blank = none := by
      by_contra hm
      obtain ⟨m, hm⟩ := Option.ne_none_iff_exists'.mp hm
      exact (names_of_marker? hm).trim_content_ne_nil (trim_eq_nil_iff.mpr hblank)
    refine ⟨first.content, first.blank.content, ?_, ?_, hbytes, ?_, hblank, ?_, ?_⟩
    · refine ⟨first.ending ++ Line.join rest, ?_, ?_⟩
      · rw [← Line.join_ofText text.toList, ht, Line.join_cons, Line.text, List.append_assoc]
      · rw [hl, Line.join_cons, Line.text, List.append_assoc]
        rfl
    · refine ⟨first.ending ++ Line.join (rest.map (Outline.separate L.marker?)), ?_⟩
      rw [script, hl, List.map_cons, Outline.separate_of_none hmark, Line.join_cons, Line.text,
        List.append_assoc]
      rfl
    · rw [List.count_eq_zero_of_not_mem (hf.newline_not_mem (List.mem_cons_self ..))]
      simp [Line.blank, List.count_replicate]
    · intro l hm hsome
      rw [hl] at hm
      rcases List.mem_cons.mp hm with rfl | hm
      · simp [hmark] at hsome
      · obtain ⟨front, back, rfl⟩ := List.append_of_mem hm
        rw [start_eq (show L.lines = (first.blank :: front) ++ l :: back from hl), Line.join_cons,
          Line.text, Position.byte_after]
        simp only [byteLength_append]
        omega
    · intro k
      simp [At, hn, ht, InSpan, Line.contentSpan, Line.contentStop, hstart, Position.origin]

variable {L} {head blanks : List Char} {e : Excerpt} {k : Nat} {c : Char}

/-- The pieces stand in the text behind the header. -/
theorem Head.exists_source (hh : L.Head head blanks) (he : e ∈ L.excerpts) : ∃ before after,
    text.toList = head ++ before ++ (e.chars ++ after) ∧
      e.start = Position.origin.after (head ++ before) := by
  rw [excerpts_eq, List.mem_flatMap] at he
  obtain ⟨s, hs, he⟩ := he
  obtain ⟨front, back, hj, hstart⟩ := Outline.exists_append_of_mem_sectionsFrom L.follows hs
  obtain ⟨before, after, ht, hplace, hne, hfirst⟩ := Excerpt.eq_append_of_mem_ofScript he
  obtain ⟨rest, htext, hlines⟩ := hh.text
  have hcut : blanks ++ rest = front ++ before ++ (e.chars ++ (after ++ back)) := by
    rw [← hlines, hj, ht]
    simp only [List.append_assoc]
  -- A piece begins with a character that is not blank, and so not within the blanked header.
  obtain ⟨es, hes, hrest⟩ : ∃ es, front ++ before = blanks ++ es ∧
      rest = es ++ (e.chars ++ (after ++ back)) := by
    rcases List.append_eq_append_iff.mp hcut with h | ⟨es, hb, hc⟩
    · exact h
    · cases es with
      | nil => exact ⟨[], by simp [hb], by simp [hc]⟩
      | cons d es =>
        obtain ⟨c, cs, he⟩ := List.exists_cons_of_ne_nil hne
        rw [he] at hc hfirst
        have hcd : c = d := (List.cons.inj hc).1
        have hd := hh.blank d (by simp [hb])
        simp [← hcd, hfirst c rfl] at hd
  refine ⟨es, after ++ back, ?_, ?_⟩
  · rw [htext, hrest, List.append_assoc]
  · rw [hplace, hstart, ← Position.after_append, hes]
    exact Position.after_congr (by simp [hh.bytes]) (by simp [hh.newlines]) _

theorem Head.le_start (hh : L.Head head blanks) (he : e ∈ L.excerpts) :
    byteLength head ≤ e.start.byte := by
  obtain ⟨before, -, -, hs⟩ := hh.exists_source he
  simp only [hs, Position.byte_after, byteLength_append]
  omega

/-- Behind the header blanking it has changed nothing. -/
theorem Head.charAt_join (hh : L.Head head blanks) (hk : byteLength head ≤ k)
    (hc : CharAt text.toList k c) : CharAt (Line.join L.lines) k c := by
  obtain ⟨rest, ht, hl⟩ := hh.text
  rw [ht, charAt_append_iff] at hc
  rw [hl, charAt_append_iff, hh.bytes]
  exact hc.imp_left fun h => absurd h.lt (Nat.not_lt.mpr hk)

/-- A marker line and a piece do not meet. -/
theorem apart_of_marker {front back : List Line} {l : Line} (h : L.lines = front ++ l :: back)
    (hm : (L.marker? l).isSome) (he : e ∈ L.excerpts) :
    e.stop.byte ≤ l.start.byte ∨ l.contentStop.byte ≤ e.start.byte := by
  rw [excerpts_eq, List.mem_flatMap] at he
  obtain ⟨s, hs, he⟩ := he
  rw [sections_eq h hm] at hs
  rcases List.mem_append.mp hs with hs | hs
  · exact .inl (stop_le_of_mem_front h hs he)
  · rcases List.mem_cons.mp hs with rfl | hs
    · exact .inr (le_start_of_mem_behind he)
    · obtain ⟨k, hk, -, hle⟩ := exists_marker_le_of_mem_back hs he
      obtain ⟨between, rest, rfl⟩ := List.append_of_mem hk
      have hstart := start_eq (show L.lines = (front ++ l :: between) ++ k :: rest by simp [h])
      refine .inr ?_
      simp only [Line.contentStop, hstart, start_eq h, Line.join_append, Line.join_cons, Line.text,
        Position.byte_after, byteLength_append] at hle ⊢
      omega

theorem isSplit_script : IsSplit L.script (L.excerpts.map Excerpt.span) := by
  have h := isSplit_statementSpans (String.ofList L.script)
  rwa [statementSpans, String.toList_ofList] at h

/-- Statements and pieces of comments are the pieces. -/
theorem at_statement_or_fragment_iff :
    L.At k .statement ∨ L.At k .fragment ↔ ∃ e ∈ L.excerpts, InSpan k e.span := by
  constructor
  · intro h
    rcases h with ⟨e, he, hk⟩ | ⟨e, he, hk⟩
    · exact ⟨e, (List.mem_filter.mp he).1, hk⟩
    · exact ⟨e, (List.mem_filter.mp he).1, hk⟩
  · intro h
    obtain ⟨e, he, hk⟩ := h
    cases hc : isCommentOnly e.chars with
    | true => exact .inr ⟨e, List.mem_filter.mpr ⟨he, hc⟩, hk⟩
    | false => exact .inl ⟨e, List.mem_filter.mpr ⟨he, by simp [hc]⟩, hk⟩

theorem exists_place (hc : CharAt text.toList k c) (hb : isBlank c = false) :
    ∃ place, L.At k place := by
  obtain ⟨head, blanks, hh⟩ := L.exists_head
  by_cases hk : k < byteLength head
  · exact ⟨.header, (hh.place k).mpr hk⟩
  · have hj := hh.charAt_join (Nat.not_lt.mp hk) hc
    rcases Line.charAt_separate L.follows (fun _ _ hm => content_ne_nil hm) hj hb with h | hs
    · rw [show Position.origin.byte = 0 from rfl, Nat.zero_add] at h
      exact ⟨.marker, h⟩
    · by_cases he : ∃ e ∈ L.excerpts, InSpan k e.span
      · rcases at_statement_or_fragment_iff.mpr he with h | h
        · exact ⟨.statement, h⟩
        · exact ⟨.fragment, h⟩
      · rcases isSplit_script.outside k c hs (by simpa using he) with h | h
        · simp [hb] at h
        · refine ⟨.separator, ?_, h⟩
          rwa [h.charAt.unique hs]

theorem not_marker_of_header (h : L.At k .header) : ¬ L.At k .marker := by
  intro hm
  obtain ⟨head, blanks, hh⟩ := L.exists_head
  obtain ⟨l, hl, hsome, hk⟩ := hm
  have hlt := (hh.place k).mp h
  have hle := hh.markers l hl hsome
  simp only [InSpan, Line.contentSpan] at hk
  omega

theorem not_inSpan_of_header (h : L.At k .header) (he : e ∈ L.excerpts) : ¬ InSpan k e.span := by
  intro hk
  obtain ⟨head, blanks, hh⟩ := L.exists_head
  have hlt := (hh.place k).mp h
  have hle := hh.le_start he
  simp only [InSpan, Excerpt.span] at hk
  omega

theorem not_separator_of_header (h : L.At k .header) : ¬ L.At k .separator := by
  intro hs
  obtain ⟨head, blanks, hh⟩ := L.exists_head
  obtain ⟨rest, hrest⟩ := hh.script
  have hc : CharAt ([] ++ (blanks ++ rest)) k ';' := by
    rw [List.nil_append, ← hrest]
    exact hs.2.charAt
  have hk : InSpan k (0, byteLength blanks) := by
    refine ⟨Nat.zero_le k, ?_⟩
    rw [hh.bytes]
    exact (hh.place k).mp h
  exact absurd (hh.blank _ (hc.mem_of_inSpan hk)) (by decide)

theorem not_inSpan_of_marker (h : L.At k .marker) (he : e ∈ L.excerpts) : ¬ InSpan k e.span := by
  intro hk
  obtain ⟨l, hl, hm, hin⟩ := h
  obtain ⟨front, back, hlines⟩ := List.append_of_mem hl
  have hor := apart_of_marker hlines hm he
  simp only [InSpan, Line.contentSpan, Excerpt.span] at hk hin
  omega

/-- The semicolon that a marker counts as is none of the text. -/
theorem not_separator_of_marker (h : L.At k .marker) : ¬ L.At k .separator := by
  intro hs
  obtain ⟨head, blanks, hh⟩ := L.exists_head
  obtain ⟨l, hl, hm, hk⟩ := h
  obtain ⟨m, hname⟩ := Option.isSome_iff_exists.mp hm
  obtain ⟨front, back, hlines⟩ := List.append_of_mem hl
  have hle := hh.markers l hl hm
  have hc := hh.charAt_join (Nat.le_trans hle hk.1) hs.1
  rw [hlines, Line.join_append, Line.join_cons, Line.text, List.append_assoc] at hc
  refine (names_of_marker? hname).semicolon_not_mem (CharAt.mem_of_inSpan hc ?_)
  rw [byteLength_append]
  simpa [Line.contentSpan, Line.contentStop, start_eq hlines, Position.origin] using hk

theorem not_separator_of_inSpan (he : e ∈ L.excerpts) (hk : InSpan k e.span) :
    ¬ L.At k .separator := fun hs =>
  isSplit_script.inside e.span (List.mem_map_of_mem he) k hs.2 hk

theorem eq_of_inSpan {e f : Excerpt} (he : e ∈ L.excerpts) (hf : f ∈ L.excerpts)
    (hk : InSpan k e.span) (hkf : InSpan k f.span) : e = f := by
  by_contra hne
  have : Std.Symm fun e f : Excerpt => e.stop.byte < f.start.byte ∨ f.stop.byte < e.start.byte :=
    ⟨fun _ _ h => h.symm⟩
  have hp : L.excerpts.Pairwise fun e f =>
      e.stop.byte < f.start.byte ∨ f.stop.byte < e.start.byte :=
    (Excerpt.pairwise_ofScript .origin L.script).imp Or.inl
  have hor := hp.forall he hf hne
  simp only [InSpan, Excerpt.span] at hk hkf
  omega

theorem not_fragment_of_statement (h : L.At k .statement) : ¬ L.At k .fragment := by
  intro hf
  obtain ⟨e, he, hk⟩ := h
  obtain ⟨f, hf, hkf⟩ := hf
  obtain ⟨he, hes⟩ := List.mem_filter.mp he
  obtain ⟨hf, hfs⟩ := List.mem_filter.mp hf
  rw [eq_of_inSpan he hf hk hkf, hfs] at hes
  cases hes

theorem pairwise_at (L : Layout text) (k : Nat) :
    [Place.header, .marker, .statement, .fragment, .separator].Pairwise fun p q =>
      L.At k p → ¬ L.At k q := by
  have hpieces {p : Place} (hno : L.At k p → ∀ e ∈ L.excerpts, ¬ InSpan k e.span) :
      (L.At k p → ¬ L.At k .statement) ∧ (L.At k p → ¬ L.At k .fragment) := by
    refine ⟨fun hp hs => ?_, fun hp hf => ?_⟩
    · obtain ⟨e, he, hk⟩ := at_statement_or_fragment_iff.mp (.inl hs)
      exact hno hp e he hk
    · obtain ⟨e, he, hk⟩ := at_statement_or_fragment_iff.mp (.inr hf)
      exact hno hp e he hk
  have hseparator (h : L.At k .statement ∨ L.At k .fragment) : ¬ L.At k .separator := by
    obtain ⟨e, he, hk⟩ := at_statement_or_fragment_iff.mp h
    exact not_separator_of_inSpan he hk
  have hheader := hpieces fun h e he => not_inSpan_of_header h he
  have hmarker := hpieces fun h e he => not_inSpan_of_marker h he
  simp only [List.pairwise_cons, List.forall_mem_cons]
  exact ⟨⟨not_marker_of_header, hheader.1, hheader.2, not_separator_of_header, by simp⟩,
    ⟨hmarker.1, hmarker.2, not_separator_of_marker, by simp⟩,
    ⟨not_fragment_of_statement, fun h => hseparator (.inl h), by simp⟩,
    ⟨fun h => hseparator (.inr h), by simp⟩, by simp, .nil⟩

theorem existsUnique_place (hc : CharAt text.toList k c) (hb : isBlank c = false) :
    ∃! place, L.At k place := by
  obtain ⟨place, hp⟩ := exists_place hc hb
  refine ⟨place, hp, fun other ho => ?_⟩
  by_contra hne
  have : Std.Symm fun p q => ¬ (L.At k p ∧ L.At k q) := ⟨fun _ _ h => fun hqp => h hqp.symm⟩
  have hmem (p : Place) : p ∈ [Place.header, .marker, .statement, .fragment, .separator] := by
    cases p <;> decide
  have hpair := (pairwise_at L k).imp fun h (hpq : L.At k _ ∧ L.At k _) => h hpq.1 hpq.2
  exact hpair.forall (hmem other) (hmem place) hne ⟨ho, hp⟩

end Layout

/-- The text of the statement is the part of the template in the span, and its line is the one that
the span begins on. -/
def StandsAt (text : List Char) (span : Nat × Nat) (s : NamedStatement) : Prop :=
  ∃ before chars after, text = before ++ (chars ++ after) ∧
    span = (byteLength before, byteLength (before ++ chars)) ∧
    s.statement.text = String.ofList chars ∧ s.line = 1 + before.count '\n'

theorem Layout.standsAt_of_mem {text : String} {L : Layout text} {e : Excerpt}
    (he : e ∈ L.excerpts) (ordinal : Nat) (name : Option String) :
    StandsAt text.toList e.span (.ofExcerpt .keep ordinal name e) := by
  obtain ⟨head, blanks, hh⟩ := L.exists_head
  obtain ⟨before, after, ht, hs⟩ := hh.exists_source he
  refine ⟨head ++ before, e.chars, after, ht, ?_, ?_, ?_⟩
  · simp [Excerpt.span, Excerpt.stop, hs, Position.origin, Nat.add_assoc]
  · exact congrArg String.ofList (Excerpt.trim_chars_of_mem_ofScript he)
  · rw [NamedStatement.ofExcerpt, hs]
    rfl

/-- The statements are disjoint parts of the text in its order, and together with the header, the
marker lines, the pieces of comments and the semicolons they are all of it but for blanks. -/
structure Faithful {text : String} (L : Layout text) (template : Template) : Prop
    extends SinglePass .keep L template where
  parts : List.Forall₂ (StandsAt text.toList) (L.statements.map Excerpt.span) template.statements
  nonempty : ∀ s ∈ L.statements.map Excerpt.span, s.1 < s.2
  ordered : (L.statements.map Excerpt.span).Pairwise fun s t => s.2 < t.1
  places : ∀ k c, CharAt text.toList k c → isBlank c = false → ∃! place, L.At k place

/-- With comments kept, nothing is changed in a statement and nothing is lost. -/
theorem faithful_of_parse {text : String} {template : Template}
    (h : parse .keep text = .ok template) : ∃ L : Layout text, Faithful L template := by
  obtain ⟨L, ho, rfl, -⟩ := exists_layout_of_parse h
  refine ⟨L, Layout.singlePass ho, ?_, ?_, ?_, fun k c => Layout.existsUnique_place⟩
  · rw [L.statements_eq_zipIdx, List.map_map, Outline.statements_toTemplate,
      List.forall₂_map_left_iff, List.forall₂_map_right_iff, List.forall₂_same]
    intro x hx
    have hm : x.1.2 ∈ L.statements := by
      rw [L.statements_eq_zipIdx]
      exact List.mem_map_of_mem hx
    exact Layout.standsAt_of_mem (List.mem_filter.mp hm).1 _ _
  · intro s hs
    obtain ⟨e, he, rfl⟩ := List.mem_map.mp hs
    exact Excerpt.start_lt_stop_of_mem_ofScript (List.mem_filter.mp he).1
  · exact List.pairwise_map.mpr ((Excerpt.pairwise_ofScript .origin L.script).filter _)

theorem faithful_of_parse_wide_chars :
    (∃ L : Layout "# A\r\n-- ü\r\n; 'é\n#c'; \n\n#a\nß --;", Faithful L
      ⟨some "A", [
        ⟨none, 3, ⟨"'é\n#c'", 0, .execute⟩, ⟨.other, .execute, [], false⟩⟩,
        ⟨some "a", 7, ⟨"ß --;", 1, .execute⟩, ⟨.other, .execute, [], false⟩⟩]⟩) ∧
    (sources "# A\r\n-- ü\r\n; 'é\n#c'; \n\n#a\nß --;").map Excerpt.span =
      [(14, 21), (28, 34)] :=
  ⟨faithful_of_parse (by decide +kernel), by decide +kernel⟩

end Template

end NamedSql
