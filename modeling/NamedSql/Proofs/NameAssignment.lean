import NamedSql.Proofs.SinglePass

namespace NamedSql

/-- Whether a notice says that no statement follows the marker of the given name. -/
def Notice.isDangling (name : String) : Notice → Bool
  | .danglingMarker markerName _ => markerName == name
  | _ => false

theorem Outline.checkNames_eq_ok {given : List String} {markers : List Marker}
    (h : checkNames given markers = .ok ()) :
    (markers.map Marker.name).Nodup ∧
      ∀ m ∈ markers, isIdentifier m.name.toList ∧ m.name ∉ given := by
  induction markers generalizing given with
  | nil => simp
  | cons m markers ih =>
    rw [checkNames] at h
    split at h
    · cases h
    rename_i hi
    split at h
    · cases h
    rename_i hg
    obtain ⟨hd, hrest⟩ := ih h
    refine ⟨List.nodup_cons.mpr ⟨?_, hd⟩, ?_⟩
    · intro hm
      obtain ⟨k, hk, hkm⟩ := List.mem_map.mp hm
      exact (hrest k hk).2 (hkm ▸ List.mem_cons_self ..)
    · intro k hk
      rcases List.mem_cons.mp hk with rfl | hk
      · exact ⟨by simpa using hi, by simpa using hg⟩
      · exact ⟨(hrest k hk).1, fun hm => (hrest k hk).2 (List.mem_cons_of_mem _ hm)⟩

namespace Section
variable {s : Section}

theorem snd_mem_of_mem_named {x : Option String × Excerpt} (h : x ∈ s.named) :
    x.2 ∈ s.excerpts := by
  have hm := List.mem_map_of_mem (f := Prod.snd) h
  rw [s.map_snd_named] at hm
  exact (List.mem_filter.mp hm).1

/-- Only the first statement of a section can have a name. -/
theorem filterMap_fst_named (s : Section) :
    s.named.filterMap Prod.fst = if s.named = [] then [] else (s.marker.map Marker.name).toList := by
  unfold named
  cases s.statements with
  | nil => rfl
  | cons first rest => cases s.marker <;> simp

theorem exists_marker_of_mem_named {x : Option String × Excerpt} (h : x ∈ s.named) {name : String}
    (hx : x.1 = some name) : ∃ m, s.marker = some m ∧ m.name = name := by
  have hm : name ∈ s.named.filterMap Prod.fst := List.mem_filterMap.mpr ⟨x, h, hx⟩
  rw [filterMap_fst_named] at hm
  split at hm
  · cases hm
  · simpa using hm

theorem head?_named_fst {m : Marker} (hm : s.marker = some m) {x : Option String × Excerpt}
    (h : s.named.head? = some x) : x.1 = some m.name := by
  unfold named at h
  cases hs : s.statements with
  | nil =>
    rw [hs] at h
    cases h
  | cons first rest =>
    rw [hs, hm] at h
    cases h
    rfl

/-- A marker is left over exactly when all pieces behind it are comments. -/
theorem filter_isDangling_pieceNotices (name : String) (marker : Option Marker) (named : Bool)
    (es : List Excerpt) :
    (pieceNotices marker named es).filter (Notice.isDangling name) =
      if named || es.any (fun e => !isCommentOnly e.chars) then []
      else (marker.filter (·.name == name)).toList.map fun m => .danglingMarker m.name m.line := by
  induction es generalizing named with
  | nil =>
    cases named with
    | true => rfl
    | false =>
      cases marker with
      | none => rfl
      | some m =>
        by_cases hm : m.name = name
        · simp [pieceNotices, Notice.isDangling, Option.filter, hm]
        · simp [pieceNotices, Notice.isDangling, Option.filter, hm]
  | cons e es ih =>
    rw [pieceNotices]
    cases hc : isCommentOnly e.chars with
    | true => simp [Notice.isDangling, ih, hc]
    | false => cases named <;> cases marker <;> simp [Notice.isDangling, ih, hc]

/-- No notice about the regions of a script is about a marker. -/
theorem filter_isDangling_ofScript (name : String) (text : List Char) :
    (Notice.ofScript text).filter (Notice.isDangling name) = [] := by
  rw [Notice.ofScript, List.filter_eq_nil_iff]
  intro n hn
  obtain ⟨⟨p, segment⟩, -, hs⟩ := List.mem_filterMap.mp hn
  cases segment with
  | code cs => cases hs
  | region r =>
    dsimp only at hs
    split at hs
    · cases hs
    · cases hs
      simp [Notice.isDangling]

theorem filter_isDangling_notices (name : String) (s : Section) :
    s.notices.filter (Notice.isDangling name) =
      if s.named = [] then
        (s.marker.filter (·.name == name)).toList.map fun m => .danglingMarker m.name m.line
      else [] := by
  have hn : s.named = [] ↔ s.excerpts.any (fun e => !isCommentOnly e.chars) = false := by
    rw [← List.map_eq_nil_iff (f := Prod.snd), map_snd_named, statements, List.filter_eq_nil_iff,
      List.any_eq_false]
  rw [notices, List.filter_append, filter_isDangling_ofScript, filter_isDangling_pieceNotices]
  cases ha : s.excerpts.any fun e => !isCommentOnly e.chars <;> simp [hn, ha]

end Section

namespace Outline

theorem filterMap_marker_sectionsFrom (start : Position) (marker? : Line → Option Marker)
    (lines : List Line) :
    (sectionsFrom start marker? lines).filterMap Section.marker = lines.filterMap marker? :=
  filterMap_marker_cutAtMarkers marker? lines

theorem filterMap_fst_named_sublist (sections : List Section) :
    ((sections.flatMap Section.named).filterMap Prod.fst).Sublist
      ((sections.filterMap Section.marker).map Marker.name) := by
  induction sections with
  | nil => exact .slnil
  | cons s sections ih =>
    rw [List.flatMap_cons, List.filterMap_append, s.filterMap_fst_named]
    cases hm : s.marker with
    | none => simpa [hm] using ih
    | some m =>
      split
      · simpa [hm] using ih.cons m.name
      · simpa [hm] using ih.cons_cons m.name

end Outline

namespace Template

/-- A name that is given once finds its statement. -/
theorem get?_eq_some_of_mem {template : Template} {s : NamedStatement} {name : String}
    (hd : (template.statements.filterMap (·.name)).Nodup) (hs : s ∈ template.statements)
    (hn : s.name = some name) : template.get? name = some s := by
  unfold get?
  generalize template.statements = statements at hd hs
  induction statements with
  | nil => cases hs
  | cons first rest ih =>
    rw [List.find?_cons]
    rcases List.mem_cons.mp hs with rfl | hs
    · simp [hn]
    · have hm : name ∈ rest.filterMap (·.name) := List.mem_filterMap.mpr ⟨s, hs, hn⟩
      cases hf : first.name with
      | none =>
        rw [List.filterMap_cons_none hf] at hd
        simpa [hf] using ih hd hs
      | some other =>
        rw [List.filterMap_cons_some hf, List.nodup_cons] at hd
        have hne : (other == name) = false := by
          rw [beq_eq_false_iff_ne]
          rintro rfl
          exact hd.1 hm
        simpa [hf, hne] using ih hd.2 hs

namespace Layout
variable {text : String} (L : Layout text)

/-- Whether an excerpt begins behind a line and in front of every marker among the lines after it. -/
def isUnder (l : Line) (back : List Line) (e : Excerpt) : Bool :=
  l.contentStop.byte ≤ e.start.byte &&
    back.all fun k => (L.marker? k).isNone || e.start.byte < k.start.byte

/-- The first statement that begins between a line and the next marker after it. -/
def first? (template : Template) (l : Line) (back : List Line) : Option NamedStatement :=
  ((L.statements.zip template.statements).find? fun (e, _) => L.isUnder l back e).map Prod.snd

end Layout

/-- Each marker names the first statement below it and no other statement has a name. -/
structure NamesAssigned (policy : CommentPolicy) (L : Layout text) (template : Template) : Prop
    extends SinglePass policy L template where
  followed : ∀ front l back m s, L.lines = front ++ l :: back → L.marker? l = some m →
    L.first? template l back = some s → s.name = some m.name ∧ template.get? m.name = some s ∧
      (notices text).filter (Notice.isDangling m.name) = []
  leftOver : ∀ front l back m, L.lines = front ++ l :: back → L.marker? l = some m →
    L.first? template l back = none → (∀ s ∈ template.statements, s.name ≠ some m.name) ∧
      template.get? m.name = none ∧
        (notices text).filter (Notice.isDangling m.name) = [.danglingMarker m.name m.line]
  others : ∀ s ∈ template.statements, s.name = none ∨ ∃ front l back,
    L.lines = front ++ l :: back ∧ (L.marker? l).isSome ∧ L.first? template l back = some s
  distinct : (template.statements.filterMap (·.name)).Nodup
  identifiers : ∀ name ∈ template.statements.filterMap (·.name), isIdentifier name.toList

namespace Layout
variable {policy : CommentPolicy} {text : String} {L : Layout text} {front back : List Line}
  {l : Line}

theorem isUnder_eq_false_of_mem_front (h : L.lines = front ++ l :: back) {s : Section}
    (hs : s ∈ Outline.sectionsFrom .origin L.marker? front) {e : Excerpt} (he : e ∈ s.excerpts) :
    L.isUnder l back e = false := by
  have hstop := stop_le_of_mem_front h hs he
  have hstart := Excerpt.start_lt_stop_of_mem_ofScript he
  have hn : ¬ l.contentStop.byte ≤ e.start.byte := by
    simp only [Line.contentStop, Position.byte_after]
    omega
  simp [isUnder, hn]

theorem isUnder_of_mem_behind (h : L.lines = front ++ l :: back) {e : Excerpt}
    (he : e ∈ (Outline.sectionBehind L.marker? l back).excerpts) : L.isUnder l back e = true := by
  have hstart := Excerpt.start_lt_stop_of_mem_ofScript he
  simp only [isUnder, Bool.and_eq_true, decide_eq_true_eq, List.all_eq_true, Bool.or_eq_true,
    Option.isNone_iff_eq_none]
  refine ⟨le_start_of_mem_behind he, fun k hk => ?_⟩
  cases hm : L.marker? k with
  | none => exact .inl rfl
  | some m =>
    have hstop := stop_le_of_mem_behind h he hk (by simp [hm])
    exact .inr (by omega)

theorem isUnder_eq_false_of_mem_back {s : Section}
    (hs : s ∈ (Outline.cutAtMarkers L.marker? back).2) {e : Excerpt} (he : e ∈ s.excerpts) :
    L.isUnder l back e = false := by
  obtain ⟨k, hk, hm, hle⟩ := exists_marker_le_of_mem_back hs he
  have hn : ¬ e.start.byte < k.start.byte := by
    simp only [Line.contentStop, Position.byte_after] at hle
    omega
  rw [isUnder, Bool.and_eq_false_iff, List.all_eq_false]
  exact .inr ⟨k, hk, by simp [Option.isSome_iff_ne_none.mp hm, hn]⟩

/-- A test that singles out the section of a marker finds the first statement of that section. -/
theorem find?_statements (h : L.lines = front ++ l :: back) (hm : (L.marker? l).isSome)
    (test : Option String × Excerpt → Bool)
    (hfront : ∀ s ∈ Outline.sectionsFrom .origin L.marker? front, ∀ x ∈ s.named, test x = false)
    (hhead : ∀ x ∈ (Outline.sectionBehind L.marker? l back).named.head?, test x = true)
    (hback : ∀ s ∈ (Outline.cutAtMarkers L.marker? back).2, ∀ x ∈ s.named, test x = false) :
    L.outline.named.zipIdx.find? (fun x => test x.1) =
      (Outline.sectionBehind L.marker? l back).named.head?.map fun x =>
        (x, ((Outline.sectionsFrom .origin L.marker? front).flatMap Section.named).length) := by
  have hno {xs : List Section} (hx : ∀ s ∈ xs, ∀ x ∈ s.named, test x = false) (i : Nat) :
      ((xs.flatMap Section.named).zipIdx i).find? (fun x => test x.1) = none := by
    rw [List.find?_eq_none]
    intro x hm
    obtain ⟨s, hs, hxs⟩ := List.mem_flatMap.mp (List.fst_mem_of_mem_zipIdx hm)
    simp [hx s hs _ hxs]
  rw [Outline.named, sections_eq h hm, List.flatMap_append, List.flatMap_cons, List.zipIdx_append,
    List.zipIdx_append, List.find?_append, List.find?_append, hno hfront, hno hback, Option.none_or,
    Option.or_none, Nat.zero_add]
  cases hx : (Outline.sectionBehind L.marker? l back).named with
  | nil => rfl
  | cons x rest =>
    rw [hx] at hhead
    simp [hhead x rfl]

/-- The statement that heads the section behind a marker. -/
def heading? (policy : CommentPolicy) (L : Layout text) (front : List Line) (l : Line)
    (back : List Line) : Option NamedStatement :=
  (Outline.sectionBehind L.marker? l back).named.head?.map fun x =>
    .ofExcerpt policy
      ((Outline.sectionsFrom .origin L.marker? front).flatMap Section.named).length x.1 x.2

theorem first?_eq_heading? (policy : CommentPolicy) (h : L.lines = front ++ l :: back)
    (hm : (L.marker? l).isSome) :
    L.first? (L.outline.toTemplate policy) l back = heading? policy L front l back := by
  have hzip : L.statements.zip (L.outline.toTemplate policy).statements =
      L.outline.named.zipIdx.map fun x => (x.1.2, .ofExcerpt policy x.2 x.1.1 x.1.2) := by
    rw [L.statements_eq_zipIdx, Outline.statements_toTemplate, List.zip_map']
  have hfind := find?_statements h hm (fun x => L.isUnder l back x.2)
    (fun s hs x hx => isUnder_eq_false_of_mem_front h hs (Section.snd_mem_of_mem_named hx))
    (fun x hx => isUnder_of_mem_behind h
      (Section.snd_mem_of_mem_named (List.mem_of_mem_head? hx)))
    (fun s hs x hx => isUnder_eq_false_of_mem_back hs (Section.snd_mem_of_mem_named hx))
  rw [first?, hzip, List.find?_map, Option.map_map, heading?]
  exact (congrArg (Option.map _) hfind).trans (Option.map_map ..)

variable {m : Marker}

/-- All sections but the one behind a marker have other markers, if any. -/
theorem name_ne_of_mem_others (hd : ((L.lines.filterMap L.marker?).map Marker.name).Nodup)
    (h : L.lines = front ++ l :: back) (hm : L.marker? l = some m) {s : Section}
    (hs : s ∈ Outline.sectionsFrom .origin L.marker? front ∨
      s ∈ (Outline.cutAtMarkers L.marker? back).2)
    {k : Marker} (hk : s.marker = some k) : k.name ≠ m.name := by
  rw [h, List.filterMap_append, List.filterMap_cons_some hm, List.map_append, List.map_cons,
    List.nodup_middle, List.nodup_cons, List.mem_append, not_or] at hd
  intro hkm
  rcases hs with hs | hs
  · have hmem := List.mem_filterMap.mpr ⟨s, hs, hk⟩
    rw [Outline.filterMap_marker_sectionsFrom] at hmem
    exact hd.1.1 (hkm ▸ List.mem_map_of_mem hmem)
  · have hmem := List.mem_filterMap.mpr ⟨s, hs, hk⟩
    rw [Outline.filterMap_marker_cutAtMarkers] at hmem
    exact hd.1.2 (hkm ▸ List.mem_map_of_mem hmem)

/-- The name of a marker finds the first statement below the marker. -/
theorem get?_eq_first? (policy : CommentPolicy)
    (hd : ((L.lines.filterMap L.marker?).map Marker.name).Nodup)
    (h : L.lines = front ++ l :: back) (hm : L.marker? l = some m) :
    (L.outline.toTemplate policy).get? m.name =
      L.first? (L.outline.toTemplate policy) l back := by
  have hother {s : Section} (hs : s ∈ Outline.sectionsFrom .origin L.marker? front ∨
      s ∈ (Outline.cutAtMarkers L.marker? back).2) {x : Option String × Excerpt}
      (hx : x ∈ s.named) : (x.1 == some m.name) = false := by
    rw [beq_eq_false_iff_ne]
    intro hn
    obtain ⟨k, hk, hkm⟩ := Section.exists_marker_of_mem_named hx hn
    exact name_ne_of_mem_others hd h hm hs hk hkm
  have hfind := find?_statements h (by simp [hm]) (fun x => x.1 == some m.name)
    (fun s hs x hx => hother (.inl hs) hx)
    (fun x hx => by simp [Section.head?_named_fst hm hx])
    (fun s hs x hx => hother (.inr hs) hx)
  rw [first?_eq_heading? policy h (by simp [hm]), get?, Outline.statements_toTemplate,
    List.find?_map, heading?]
  exact (congrArg (Option.map _) hfind).trans (Option.map_map ..)

/-- A marker leaves a notice exactly when there is no statement below it. -/
theorem filter_isDangling_notices (policy : CommentPolicy)
    (hd : ((L.lines.filterMap L.marker?).map Marker.name).Nodup)
    (h : L.lines = front ++ l :: back) (hm : L.marker? l = some m) :
    L.outline.notices.filter (Notice.isDangling m.name) =
      if (L.first? (L.outline.toTemplate policy) l back).isSome then []
      else [.danglingMarker m.name m.line] := by
  have hother {s : Section} (hs : s ∈ Outline.sectionsFrom .origin L.marker? front ∨
      s ∈ (Outline.cutAtMarkers L.marker? back).2) :
      s.notices.filter (Notice.isDangling m.name) = [] := by
    rw [Section.filter_isDangling_notices]
    cases hk : s.marker with
    | none => simp
    | some k => simp [Option.filter, name_ne_of_mem_others hd h hm hs hk]
  have hnil {xs : List Section}
      (hx : ∀ s ∈ xs, s.notices.filter (Notice.isDangling m.name) = []) :
      xs.flatMap (fun s => s.notices.filter (Notice.isDangling m.name)) = [] :=
    List.flatMap_eq_nil_iff.mpr hx
  rw [Outline.notices, sections_eq h (by simp [hm]), List.filter_flatMap, List.flatMap_append,
    List.flatMap_cons, hnil fun s hs => hother (.inl hs), hnil fun s hs => hother (.inr hs),
    List.nil_append, List.append_nil, Section.filter_isDangling_notices,
    first?_eq_heading? policy h (by simp [hm]), heading?]
  cases hx : (Outline.sectionBehind L.marker? l back).named with
  | nil => simp [Outline.sectionBehind, hm]
  | cons x rest => simp

/-- The names of a template are those of its markers, in order, without the markers left over. -/
theorem names_sublist (policy : CommentPolicy) (L : Layout text) :
    ((L.outline.toTemplate policy).statements.filterMap (·.name)).Sublist
      ((L.lines.filterMap L.marker?).map Marker.name) := by
  have hnames : (L.outline.toTemplate policy).statements.filterMap (·.name) =
      L.outline.named.filterMap Prod.fst := by
    rw [Outline.statements_toTemplate, List.filterMap_map, ← List.zipIdx_map_fst 0 L.outline.named,
      List.filterMap_map, List.zipIdx_map_fst]
    rfl
  rw [hnames, ← Outline.filterMap_marker_sectionsFrom .origin]
  exact Outline.filterMap_fst_named_sublist _

end Layout

/-- The statements of a template, named by the markers above them. -/
theorem namesAssigned_of_parse {policy : CommentPolicy} {text : String} {template : Template}
    (h : parse policy text = .ok template) :
    ∃ L : Layout text, NamesAssigned policy L template := by
  obtain ⟨L, ho, rfl, hc⟩ := exists_layout_of_parse h
  obtain ⟨hd, hi⟩ := Outline.checkNames_eq_ok hc
  have hnotices : notices text = L.outline.notices := by
    rw [notices, ho]
  have hnames := Layout.names_sublist policy L
  have hdistinct := hd.sublist hnames
  refine ⟨L, Layout.singlePass ho, ?_, ?_, ?_, hdistinct, ?_⟩
  · intro front l back m s hl hm hs
    have hget := Layout.get?_eq_first? policy hd hl hm
    rw [hs] at hget
    refine ⟨?_, hget, ?_⟩
    · simpa using List.find?_some hget
    · rw [hnotices, Layout.filter_isDangling_notices policy hd hl hm, hs]
      rfl
  · intro front l back m hl hm hs
    have hget := Layout.get?_eq_first? policy hd hl hm
    rw [hs] at hget
    refine ⟨?_, hget, ?_⟩
    · intro s hs
      simpa using List.find?_eq_none.mp hget s hs
    · rw [hnotices, Layout.filter_isDangling_notices policy hd hl hm, hs]
      rfl
  · intro s hs
    cases hn : s.name with
    | none => exact .inl rfl
    | some name =>
      have hmem : name ∈ (L.outline.toTemplate policy).statements.filterMap (·.name) :=
        List.mem_filterMap.mpr ⟨s, hs, hn⟩
      obtain ⟨m, hmark, rfl⟩ := List.mem_map.mp (hnames.mem hmem)
      obtain ⟨l, hl, hm⟩ := List.mem_filterMap.mp hmark
      obtain ⟨front, back, hlines⟩ := List.append_of_mem hl
      refine .inr ⟨front, l, back, hlines, by simp [hm], ?_⟩
      rw [← Layout.get?_eq_first? policy hd hlines hm, get?_eq_some_of_mem hdistinct hs hn]
  · intro name hname
    obtain ⟨m, hm, rfl⟩ := List.mem_map.mp (hnames.mem hname)
    exact (hi m hm).1

theorem namesAssigned_of_parse_left_over :
    (∃ L : Layout "1;\n#a\n/**/;2;3\n-- name: b\n;--\n#c\n4", NamesAssigned .keep L
      ⟨none, [
        ⟨none, 1, ⟨"1", 0, .execute⟩, ⟨.other, .execute, [], false⟩⟩,
        ⟨some "a", 3, ⟨"2", 1, .execute⟩, ⟨.other, .execute, [], false⟩⟩,
        ⟨none, 3, ⟨"3", 2, .execute⟩, ⟨.other, .execute, [], false⟩⟩,
        ⟨some "c", 7, ⟨"4", 3, .execute⟩, ⟨.other, .execute, [], false⟩⟩]⟩) ∧
    (notices "1;\n#a\n/**/;2;3\n-- name: b\n;--\n#c\n4").filter (Notice.isDangling "b") =
      [.danglingMarker "b" 4] :=
  ⟨namesAssigned_of_parse (by decide +kernel), by decide +kernel⟩

end Template

end NamedSql
