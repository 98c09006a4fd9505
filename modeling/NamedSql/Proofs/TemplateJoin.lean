import NamedSql.Proofs.BlankEnds
import NamedSql.Proofs.NameAssignment
import NamedSql.Proofs.TemplateErrors
import NamedSql.Proofs.TextBehind

namespace NamedSql

open Lexeme

/-- The lines of a text and those of the text with one more newline. -/
inductive Line.Ended : List Line → List Line → Prop
  | line {lines : List Line} {l : Line} (content : l.content = []) (ending : l.ending = ['\n']) :
      Ended lines (lines ++ [l])
  | last {front : List Line} {l : Line} :
      Ended (front ++ [l]) (front ++ [{ l with ending := l.ending ++ ['\n'] }])

namespace Line

theorem Ended.cons {lines lines' : List Line} (h : Ended lines lines') (l : Line) :
    Ended (l :: lines) (l :: lines') := by
  cases h with
  | line content ending => exact @line (l :: lines) _ content ending
  | @last front k => exact @last (l :: front) k

theorem Ended.join {lines lines' : List Line} (h : Ended lines lines') :
    join lines' = join lines ++ ['\n'] := by
  cases h with
  | line content ending => simp [Line.join, text, content, ending]
  | last => simp [Line.join, text]

theorem locate_cut_append (a : List Char) (start : Position) :
    ∃ ended, Ended (locate start (cut a)) ended ∧ ∀ b, locate start (cut (a ++ '\n' :: b)) =
      ended ++ locate (start.after (a ++ ['\n'])) (cut b) := by
  induction a using separator_induction '\n' generalizing start with
  | last a h =>
    rcases eq_or_ne a [] with rfl | hne
    · refine ⟨[ofChars start ['\n']], @Ended.line [] _ rfl rfl, fun b => ?_⟩
      rfl
    · have hnl : ∀ c ∈ ['\n'], isEnding c := by simp [isEnding]
      have hl := ofChars_append hnl start a
      refine ⟨[ofChars start (a ++ ['\n'])], ?_, fun b => ?_⟩
      · rw [cut_of_not_mem hne h, hl]
        exact @Ended.last [] _
      · rw [cut_append_newline h]
        rfl
  | cut as bs h ih =>
    obtain ⟨ended, he, hb⟩ := ih (start.after (as ++ ['\n']))
    refine ⟨ofChars start (as ++ ['\n']) :: ended, ?_, fun b => ?_⟩
    · rw [cut_append_newline h, locate]
      exact he.cons _
    · rw [List.append_assoc, List.cons_append, cut_append_newline h, locate, hb,
        ← Position.after_append]
      simp

/-- The lines of a text that goes on behind a newline. -/
theorem ofText_append (a : List Char) : ∃ ended, Ended (ofText a) ended ∧
    ∀ b, ofText (a ++ '\n' :: b) = ended ++ (ofText b).map (behind (a ++ ['\n'])) := by
  obtain ⟨ended, he, hb⟩ := locate_cut_append a .origin
  refine ⟨ended, he, fun b => ?_⟩
  rw [ofText, hb, ← Position.behind_origin, locate_behind]
  rfl

end Line

namespace Excerpt

theorem filter_trim_locate_concat {c : Char} (hc : isBlank c) (start : Position)
    (front : List (List Char)) (piece : List Char) :
    ((locate start (front ++ [piece ++ [c]])).map trim).filter (!·.chars.isEmpty) =
      ((locate start (front ++ [piece])).map trim).filter (!·.chars.isEmpty) := by
  induction front generalizing start with
  | nil =>
    have ht : NamedSql.trim (piece ++ [c]) = NamedSql.trim piece :=
      trim_append_of_all (by simpa using hc) piece
    by_cases hp : ∀ d ∈ piece, isBlank d
    · have he : NamedSql.trim piece = [] := trim_eq_nil_iff.mpr hp
      simp [locate, trim, ht, he]
    · have hw : (piece ++ [c]).takeWhile isBlank = piece.takeWhile isBlank := by
        rw [List.takeWhile_append, if_neg]
        intro hl
        have he := (List.takeWhile_prefix isBlank (l := piece)).eq_of_length hl
        exact hp fun d hd => isBlank_of_mem_takeWhile d (he.symm ▸ hd)
      simp [locate, trim, ht, hw]
  | cons next front ih =>
    rw [List.cons_append, List.cons_append, locate, locate, List.map_cons, List.map_cons,
      List.filter_cons, List.filter_cons, ih]

/-- A blank behind a script is in none of its statements. -/
theorem ofScript_concat_blank {c : Char} (hc : isBlank c) (start : Position) (text : List Char) :
    ofScript start (text ++ [c]) = ofScript start text := by
  have hpieces : ∃ front piece, pieces (Segment.ofText text) = front ++ [piece] ∧
      pieces (Segment.ofText (text ++ [c])) = front ++ [piece ++ [c]] := by
    have h := takesUp_scan hc text
    rw [← Lexeme.pieces_scan, ← Lexeme.pieces_scan]
    generalize scan none text = old at h ⊢
    generalize scan none (text ++ [c]) = new at h ⊢
    cases h with
    | code =>
      obtain ⟨front, piece, hp, hq⟩ := Lexeme.pieces_concat old
      exact ⟨front, piece, hp, hq (.code c) (by simpa using ne_of_isBlank hc rfl)⟩
    | @region before r chars _ ends =>
      obtain ⟨front, piece, -, hq⟩ := Lexeme.pieces_concat before
      refine ⟨front, piece ++ chars, hq _ (by simp), ?_⟩
      rw [hq _ (by simp), Lexeme.text, ends, List.append_assoc]
  obtain ⟨front, piece, ho, hn⟩ := hpieces
  rw [ofScript, ofScript, hn, ho, filter_trim_locate_concat hc]

end Excerpt

theorem Section.named_concat_blank {c : Char} (hc : isBlank c) (s : Section) :
    ({ s with text := s.text ++ [c] } : Section).named = s.named := by
  simp only [named, statements, excerpts, Excerpt.ofScript_concat_blank hc]

namespace Outline

/-- What lines are cut into, and what the lines with one more newline are cut into. -/
inductive Ended : List Char × List Section → List Char × List Section → Prop
  | lead {lead : List Char} : Ended (lead, []) (lead ++ ['\n'], [])
  | last {lead : List Char} {front : List Section} {s : Section} :
      Ended (lead, front ++ [s]) (lead, front ++ [{ s with text := s.text ++ ['\n'] }])

theorem Ended.named {cut cut' : List Char × List Section} (h : Ended cut cut') (start : Position) :
    Section.named ⟨none, start, cut'.1⟩ ++ cut'.2.flatMap Section.named =
      Section.named ⟨none, start, cut.1⟩ ++ cut.2.flatMap Section.named := by
  have hn : isBlank '\n' := by decide
  cases h with
  | @lead lead => simpa using Section.named_concat_blank hn ⟨none, start, lead⟩
  | @last lead front s => simp [Section.named_concat_blank hn s]

variable {used : Line → Option Marker} {lines lines' : List Line}

theorem ended_cutAtMarkers_cons {l : Line}
    (h : Ended (cutAtMarkers used lines) (cutAtMarkers used lines')) :
    Ended (cutAtMarkers used (l :: lines)) (cutAtMarkers used (l :: lines')) := by
  rw [cutAtMarkers, cutAtMarkers]
  generalize cutAtMarkers used lines = cut at h ⊢
  generalize cutAtMarkers used lines' = cut' at h ⊢
  cases h with
  | @lead lead =>
    cases used l with
    | none => simpa using @Ended.lead (l.text ++ lead)
    | some m =>
      simpa using @Ended.last [] [] ⟨some m, l.contentStop, l.ending ++ lead⟩
  | @last lead front s =>
    cases used l with
    | none => exact .last
    | some m => exact @Ended.last [] (⟨some m, l.contentStop, l.ending ++ lead⟩ :: front) s

/-- A newline more behind lines is one more behind their last section. -/
theorem ended_cutAtMarkers (h : Line.Ended lines lines')
    (hn : ∀ l, l.content = [] → used l = none)
    (he : ∀ l ending, used { l with ending := ending } = used l) :
    Ended (cutAtMarkers used lines) (cutAtMarkers used lines') := by
  cases h with
  | @line _ l content ending =>
    induction lines with
    | nil =>
      have ht : l.text = ['\n'] := by simp [Line.text, content, ending]
      simpa [cutAtMarkers, hn l content, ht] using @Ended.lead []
    | cons k lines ih => exact ended_cutAtMarkers_cons ih
  | @last front l =>
    induction front with
    | nil =>
      simp only [List.nil_append, cutAtMarkers, he]
      cases used l with
      | none => simpa [Line.text] using @Ended.lead l.text
      | some m =>
        simpa [Line.contentStop] using
          @Ended.last [] [] ⟨some m, l.contentStop, l.ending⟩
    | cons k front ih => exact ended_cutAtMarkers_cons ih

theorem filterMap_of_ended (h : Line.Ended lines lines')
    (hn : ∀ l, l.content = [] → used l = none)
    (he : ∀ l ending, used { l with ending := ending } = used l) :
    lines'.filterMap used = lines.filterMap used := by
  cases h with
  | @line _ l content ending => simp [hn l content]
  | @last front l => simp [List.filterMap_cons, he]

variable {className : Option String} {first : Line} {rest : List Line}

/-- Only the content of the first line decides about the header. -/
theorem readHeader_cons (h : readHeader (first :: rest) = .ok (className, lines)) :
    ∃ k, lines = k :: rest ∧ k.ending = first.ending ∧
      (∀ rest', readHeader (first :: rest') = .ok (className, k :: rest')) ∧
        ∀ ending rest', readHeader ({ first with ending := ending } :: rest') =
          .ok (className, { k with ending := ending } :: rest') := by
  have ho (ending : List Char) : Header.ofLine { first with ending := ending } =
      Header.ofLine first := rfl
  rw [readHeader] at h
  simp only [readHeader, ho]
  split at h
  · cases h
    exact ⟨first, rfl, rfl, fun _ => rfl, fun _ _ => rfl⟩
  · cases h
  · split at h
    · cases h
      exact ⟨first.blank, rfl, rfl, fun _ => by simp [*], fun _ _ => by simp [*, Line.blank]⟩
    · cases h

theorem readHeader_of_ended {read : List Line} (he : Line.Ended lines lines')
    (h : readHeader lines = .ok (className, read)) : ∃ read', Line.Ended read read' ∧
      ∀ more, readHeader (lines' ++ more) = .ok (className, read' ++ more) := by
  cases he with
  | @line _ l content ending =>
    cases lines with
    | nil =>
      cases h
      have ho : Header.ofLine l = .absent := by rw [Header.ofLine, content]; rfl
      refine ⟨[l], @Line.Ended.line [] l content ending, fun more => ?_⟩
      simp [readHeader, ho]
    | cons first rest =>
      obtain ⟨k, rfl, -, hr, -⟩ := readHeader_cons h
      exact ⟨k :: rest ++ [l], .line content ending, fun more => hr _⟩
  | @last front l =>
    cases front with
    | nil =>
      obtain ⟨k, rfl, hk, -, hr⟩ := readHeader_cons h
      refine ⟨_, @Line.Ended.last [] k, fun more => ?_⟩
      rw [hk]
      exact hr _ more
    | cons first rest =>
      obtain ⟨k, rfl, -, hr, -⟩ := readHeader_cons h
      exact ⟨_, @Line.Ended.last (k :: rest) l, fun more => hr _⟩

end Outline

namespace Outline
variable {used : Line → Option Marker} {lines front : List Line} {start : Position}

theorem checkNames_of_nodup {given : List String} {markers : List Marker}
    (hd : (markers.map Marker.name).Nodup)
    (hi : ∀ m ∈ markers, isIdentifier m.name.toList ∧ m.name ∉ given) :
    checkNames given markers = .ok () := by
  induction markers generalizing given with
  | nil => rfl
  | cons m markers ih =>
    obtain ⟨⟨hm, hg⟩, hrest⟩ := List.forall_mem_cons.mp hi
    obtain ⟨hn, hd⟩ := List.nodup_cons.mp hd
    rw [checkNames, if_neg (by simpa using hm), if_neg (by simpa using hg)]
    apply ih hd
    intro k hk
    refine ⟨(hrest k hk).1, ?_⟩
    intro hmem
    rcases List.mem_cons.mp hmem with he | hmem
    · exact hn (he ▸ List.mem_map_of_mem hk)
    · exact (hrest k hk).2 hmem

theorem checkNames_append {as bs : List Marker} (ha : checkNames [] as = .ok ())
    (hb : checkNames [] bs = .ok ()) (hd : ∀ m ∈ as, ∀ k ∈ bs, m.name ≠ k.name) :
    checkNames [] (as ++ bs) = .ok () := by
  obtain ⟨hda, hia⟩ := checkNames_eq_ok ha
  obtain ⟨hdb, hib⟩ := checkNames_eq_ok hb
  apply checkNames_of_nodup
  · rw [List.map_append, List.nodup_append]
    refine ⟨hda, hdb, ?_⟩
    intro name hname name' hname'
    obtain ⟨m, hm, rfl⟩ := List.mem_map.mp hname
    obtain ⟨k, hk, rfl⟩ := List.mem_map.mp hname'
    exact hd m hm k hk
  · intro m hm
    exact (List.mem_append.mp hm).elim (hia m) (hib m)

theorem checkNames_behind {markers : List Marker} (h : checkNames [] markers = .ok ())
    {chars : List Char} : checkNames [] (markers.map (.behind chars)) = .ok () := by
  obtain ⟨hd, hi⟩ := checkNames_eq_ok h
  apply checkNames_of_nodup
  · rw [List.map_map]
    exact hd
  · intro k hk
    obtain ⟨m, hm, rfl⟩ := List.mem_map.mp hk
    exact hi m hm

/-- Lines are cut in front of a marker. -/
theorem sectionsFrom_append_marked {first : Line} {rest : List Line} (hl : lines = first :: rest)
    (hm : (used first).isSome) : sectionsFrom start used (front ++ lines) =
      sectionsFrom start used front ++ (cutAtMarkers used lines).2 := by
  have hcut : cutAtMarkers used ([] ++ first :: rest) = _ := cutAtMarkers_append hm
  rw [List.nil_append] at hcut
  rw [hl, sectionsFrom_append hm, hcut]
  rfl

end Outline

theorem Line.Ended.exists_eq_append {lines lines' front back : List Line} {l : Line}
    (h : Ended lines lines') (hl : lines = front ++ l :: back) :
    ∃ ending back', lines' = front ++ { l with ending := ending } :: back' := by
  cases h with
  | @line _ k content ending => exact ⟨l.ending, back ++ [k], by simp [hl]⟩
  | @last init k =>
    rcases List.eq_nil_or_concat back with rfl | ⟨mid, j, rfl⟩
    · obtain ⟨rfl, hk⟩ := List.append_inj' hl rfl
      cases hk
      exact ⟨_, [], rfl⟩
    · rw [List.concat_eq_append, ← List.cons_append, ← List.append_assoc] at hl
      obtain ⟨rfl, -⟩ := List.append_inj' hl rfl
      exact ⟨l.ending, mid ++ [_], List.append_assoc ..⟩

namespace Outline
variable {lines lines' more : List Line} {front : List Char}

theorem markerIn_eq_none {l : Line} (h : l.content = []) : markerIn lines l = none := by
  by_contra hn
  obtain ⟨m, hm⟩ := Option.ne_none_iff_exists'.mp hn
  exact (marker?_eq_some_iff.mp hm).form.content_ne_nil h

/-- The markers of the first template do not see what stands behind it. -/
theorem markerIn_front (he : Line.Ended lines lines') (hf : Line.Follows .origin lines)
    (hf' : Line.Follows .origin (lines' ++ more)) :
    ∀ l ∈ lines, markerIn (lines' ++ more) l = markerIn lines l := by
  intro l hl
  obtain ⟨before, after, rfl⟩ := List.append_of_mem hl
  obtain ⟨ending, after', rfl⟩ := he.exists_eq_append rfl
  rw [List.append_assoc, List.cons_append] at hf' ⊢
  have hm := markerIn_eq_map id hf hf' rfl rfl Iff.rfl
  simp only [id, Option.map_id'] at hm
  exact hm

/-- Those of the second one do not see what stands in front of it, when nothing is open there. -/
theorem markerIn_behind (hl : AtLineStart (Line.join lines'))
    (hc : Closed (scan none (Line.join lines'))) (hf : Line.Follows .origin lines)
    (hf' : Line.Follows .origin (lines' ++ lines.map (.behind front))) :
    ∀ l ∈ lines, markerIn (lines' ++ lines.map (.behind front)) (l.behind front) =
      (markerIn lines l).map (.behind front) := by
  intro l hm
  obtain ⟨before, after, rfl⟩ := List.append_of_mem hm
  rw [List.map_append, List.map_cons, ← List.append_assoc] at hf' ⊢
  have hclosed : Closed (scan none (Line.join (lines' ++ before.map (.behind front)))) ↔
      Closed (scan none (Line.join before)) := by
    rw [Line.join_append, Line.join_map_behind, scan_append_of_closed hl hc, closed_append_iff]
    exact and_iff_right hc
  exact markerIn_eq_map (front.count '\n' + ·) hf hf' rfl rfl hclosed

theorem closed_join_of_ended (he : Line.Ended lines lines')
    (hc : Closed (scan none (Line.join lines))) :
    AtLineStart (Line.join lines') ∧ Closed (scan none (Line.join lines')) := by
  rw [he.join]
  exact ⟨by simp [AtLineStart], ((takesUp_scan (by decide) _).closed_iff).mpr hc⟩

end Outline

/-- A statement of a template behind `ordinals` other statements and `lines` other lines. -/
def NamedStatement.behind (ordinals lines : Nat) (s : NamedStatement) : NamedStatement :=
  { s with
    line := lines + s.line
    statement := { s.statement with ordinal := ordinals + s.statement.ordinal } }

namespace Outline
variable {used usedA usedB : Line → Option Marker} {la la' lb : List Line} {front : List Char}

theorem flatMap_named_of_ended (h : Line.Ended la la')
    (hn : ∀ l, l.content = [] → used l = none)
    (he : ∀ l ending, used { l with ending := ending } = used l)
    (hA : ∀ l ∈ la, used l = usedA l) (start : Position) :
    (sectionsFrom start used la').flatMap Section.named =
      (sectionsFrom start usedA la).flatMap Section.named := by
  have hcut := (ended_cutAtMarkers h hn he).named start
  rw [cutAtMarkers_congr hA] at hcut
  exact hcut

theorem flatMap_named_behind
    (hB : ∀ l ∈ lb, used (l.behind front) = (usedB l).map (.behind front)) {first : Line}
    {rest : List Line} (hl : lb = first :: rest) (hm : (usedB first).isSome) (start : Position) :
    (cutAtMarkers used (lb.map (.behind front))).2.flatMap Section.named =
      ((sectionsFrom start usedB lb).flatMap Section.named).map
        (Prod.map id (.behind front)) := by
  have hlead : (cutAtMarkers usedB lb).1 = [] := by
    rw [hl]
    have hcut : cutAtMarkers usedB ([] ++ first :: rest) = _ := cutAtMarkers_append hm
    exact congrArg Prod.fst hcut
  have hempty : Section.named ⟨none, start, []⟩ = [] := by
    simp [Section.named, Section.statements, Section.excerpts, Excerpt.ofScript, Segment.ofText,
      pieces, Excerpt.locate, Excerpt.trim, trim, trimStart, trimEnd, dropEndWhile]
  rw [cutAtMarkers_behind hB, sectionsFrom, hlead, List.flatMap_cons, hempty, List.nil_append,
    List.flatMap_map, List.map_flatMap]
  exact congrArg (List.flatMap · _) (funext (Section.named_behind front))

/-- The statements of both templates with their names, the ones of the second at new places. -/
theorem named_join (className classNameB : Option String) (h : Line.Ended la la')
    (hn : ∀ l, l.content = [] → used l = none)
    (he : ∀ l ending, used { l with ending := ending } = used l)
    (hA : ∀ l ∈ la, used l = usedA l)
    (hB : ∀ l ∈ lb, used (l.behind front) = (usedB l).map (.behind front)) {first : Line}
    {rest : List Line} (hl : lb = first :: rest) (hm : (usedB first).isSome) :
    named ⟨className, sectionsFrom .origin used (la' ++ lb.map (.behind front))⟩ =
      named ⟨className, sectionsFrom .origin usedA la⟩ ++
        (named ⟨classNameB, sectionsFrom .origin usedB lb⟩).map
          (Prod.map id (.behind front)) := by
  have hfirst : (used (first.behind front)).isSome := by
    rw [hB first (hl ▸ List.mem_cons_self ..), Option.isSome_map]
    exact hm
  have hmap : lb.map (.behind front) = first.behind front :: rest.map (.behind front) := by
    rw [hl]
    rfl
  simp only [named]
  rw [sectionsFrom_append_marked hmap hfirst, List.flatMap_append,
    flatMap_named_of_ended h hn he hA, flatMap_named_behind hB hl hm .origin]

theorem filterMap_behind
    (hB : ∀ l ∈ lb, used (l.behind front) = (usedB l).map (.behind front)) :
    (lb.map (.behind front)).filterMap used = (lb.filterMap usedB).map (.behind front) := by
  rw [List.filterMap_map, List.map_filterMap]
  exact List.filterMap_congr hB

/-- The statements of one outline behind those of another. -/
theorem statements_toTemplate_append {o oA oB : Outline} (policy : CommentPolicy)
    (h : o.named = oA.named ++ oB.named.map (Prod.map id (.behind front))) :
    (o.toTemplate policy).statements = (oA.toTemplate policy).statements ++
      (oB.toTemplate policy).statements.map
        (.behind (oA.toTemplate policy).statements.length (front.count '\n')) := by
  simp only [statements_toTemplate, h, List.zipIdx_append, List.map_append, List.length_map,
    List.length_zipIdx, List.zipIdx_map, List.map_map]
  refine congrArg (_ ++ ·) ?_
  rw [Nat.zero_add, List.zipIdx_eq_map_add, List.map_map]
  rfl

end Outline

namespace Template

/-- A name marker of the template gives the name, whether a statement follows or not. -/
def Gives (text : String) (name : String) : Prop :=
  ∃ l ∈ body text.toList, ∃ line, l.Marks (Line.join (body text.toList)) ⟨name, line⟩

theorem lines_eq_body {text : List Char} {className : Option String} {lines : List Line}
    (h : Outline.readHeader (Line.ofText text) = .ok (className, lines)) : lines = body text := by
  have hr := readHeader_ofText text
  rw [h] at hr
  exact hr.1

theorem gives_iff {text name : String} :
    Gives text name ↔ name ∈
      ((body text.toList).filterMap (Outline.markerIn (body text.toList))).map Marker.name := by
  simp only [List.mem_map, List.mem_filterMap, Outline.markerIn, Outline.marker?_eq_some_iff]
  constructor
  · rintro ⟨l, hl, line, hm⟩
    exact ⟨⟨name, line⟩, ⟨l, hl, hm⟩, rfl⟩
  · rintro ⟨m, ⟨l, hl, hm⟩, rfl⟩
    exact ⟨l, hl, m.line, hm⟩

/-- Without a header, the first line is a marker when it has the form of one. -/
theorem exists_first_marker {text : List Char} {lines : List Line}
    (h : Outline.readHeader (Line.ofText text) = .ok (none, lines))
    (hm : ∃ first rest, Line.ofText text = first :: rest ∧ first.markerName?.isSome) :
    lines = Line.ofText text ∧
      ∃ first rest, lines = first :: rest ∧ (Outline.markerIn lines first).isSome := by
  obtain rfl : lines = Line.ofText text := by
    rcases Outline.readHeader_cases h with ⟨-, hl⟩ | ⟨name, -, -, hn, -⟩
    · exact hl
    · cases hn
  obtain ⟨first, rest, hl, hm⟩ := hm
  obtain ⟨name, hn⟩ := Option.isSome_iff_exists.mp hm
  have hf : Line.Follows .origin ([] ++ first :: rest) := hl ▸ Line.follows_ofText text
  have hclosed : Closed (scan none (Line.join [])) := (scan_nil none).symm ▸ closed_nil
  have hmarks : first.Marks (Line.join (first :: rest)) ⟨name, first.start.line⟩ :=
    (Line.marks_iff hf).mpr ⟨Line.markerName?_eq_some_iff.mp hn, rfl, hclosed⟩
  refine ⟨rfl, first, rest, hl, ?_⟩
  rw [hl, Outline.markerIn, Outline.marker?_eq_some_iff.mpr hmarks]
  rfl

variable {policy : CommentPolicy} {a b : String} {A B : Template}

/-- Two templates in one file, a newline between them. The first leaves no region open, the second
begins with a name marker, and no name is given in both. -/
theorem parse_append (ha : parse policy a = .ok A) (hb : parse policy b = .ok B)
    (closed : ∀ r, .region r ∈ Segment.ofText (Outline.withoutMarkers (body a.toList)) →
      r.terminated)
    (noHeader : B.className = none)
    (marked : ∃ first rest, Line.ofText b.toList = first :: rest ∧ first.markerName?.isSome)
    (distinct : ∀ name, Gives a name → ¬ Gives b name) :
    parse policy (a ++ "\n" ++ b) = .ok ⟨A.className, A.statements ++
      B.statements.map (.behind A.statements.length (1 + a.toList.count '\n'))⟩ := by
  obtain ⟨className, la, hra, hca, rfl⟩ := parse_eq_ok_iff.mp ha
  obtain ⟨className', lb, hrb, hcb, rfl⟩ := parse_eq_ok_iff.mp hb
  obtain rfl : la = body a.toList := lines_eq_body hra
  obtain rfl : lb = body b.toList := lines_eq_body hrb
  have hfa := Outline.follows_of_readHeader hra
  have hfb := Outline.follows_of_readHeader hrb
  have hc : Closed (scan none (Line.join (body a.toList))) := by
    rw [closed_scan_iff_extents, ← Outline.extents_withoutMarkers hfa, ← closed_scan_iff_extents]
    exact closed_scan_of closed
  obtain rfl : className' = none := noHeader
  obtain ⟨hbody, first, rest, hl, hm⟩ := exists_first_marker hrb marked
  -- The lines of the first template, with the newline behind it, and those of the second.
  obtain ⟨ended, hea, hlines⟩ := Line.ofText_append a.toList
  obtain ⟨la', hla, hread⟩ := Outline.readHeader_of_ended hea hra
  have hr : Outline.readHeader (Line.ofText (a ++ "\n" ++ b).toList) =
      .ok (className, la' ++ (body b.toList).map (.behind (a.toList ++ ['\n']))) := by
    have ht : (a ++ "\n" ++ b).toList = a.toList ++ '\n' :: b.toList := by simp
    rw [ht, hlines, hread, hbody]
  have hf := Outline.follows_of_readHeader hr
  have hA := Outline.markerIn_front hla hfa hf
  obtain ⟨hline, hclosed⟩ := Outline.closed_join_of_ended hla hc
  have hB := Outline.markerIn_behind hline hclosed hfb hf
  have hn (l : Line) (h : l.content = []) :
      Outline.markerIn (la' ++ (body b.toList).map (.behind (a.toList ++ ['\n']))) l = none :=
    Outline.markerIn_eq_none h
  apply parse_eq_ok_iff.mpr
  refine ⟨className, _, hr, ?_, ?_⟩
  · rw [List.filterMap_append, Outline.filterMap_of_ended hla hn fun _ _ => rfl,
      List.filterMap_congr hA, Outline.filterMap_behind hB]
    apply Outline.checkNames_append hca (Outline.checkNames_behind hcb)
    intro m hm k hk
    obtain ⟨j, hj, rfl⟩ := List.mem_map.mp hk
    have hgives : Gives b j.name := gives_iff.mpr (List.mem_map_of_mem hj)
    intro he
    exact distinct m.name (gives_iff.mpr (List.mem_map_of_mem hm)) (he ▸ hgives)
  · have hnamed := Outline.named_join className none hla hn (fun _ _ => rfl) hA hB hl hm
    have hcount : (a.toList ++ ['\n']).count '\n' = 1 + a.toList.count '\n' := by
      simp [Nat.add_comm]
    rw [← hcount, ← Outline.statements_toTemplate_append policy hnamed]
    rfl

theorem parse_append_dangling :
    parse .strip ("# A\n#x\n1\n--name: y\n-- c" ++ "\n" ++ "#z\n2;3") = .ok ⟨some "A", [
      ⟨some "x", 3, ⟨"1", 0, .execute⟩, ⟨.other, .execute, [], false⟩⟩,
      ⟨some "z", 7, ⟨"2", 1, .execute⟩, ⟨.other, .execute, [], false⟩⟩,
      ⟨none, 7, ⟨"3", 2, .execute⟩, ⟨.other, .execute, [], false⟩⟩]⟩ := by
  have hA : parse .strip "# A\n#x\n1\n--name: y\n-- c" = .ok ⟨some "A", [
      ⟨some "x", 3, ⟨"1", 0, .execute⟩, ⟨.other, .execute, [], false⟩⟩]⟩ := by
    decide +kernel
  have hB : parse .strip "#z\n2;3" = .ok ⟨none, [
      ⟨some "z", 2, ⟨"2", 0, .execute⟩, ⟨.other, .execute, [], false⟩⟩,
      ⟨none, 2, ⟨"3", 1, .execute⟩, ⟨.other, .execute, [], false⟩⟩]⟩ := by
    decide +kernel
  have closed : Segment.ofText (Outline.withoutMarkers (body "# A\n#x\n1\n--name: y\n-- c".toList)) =
      [.code "   \n  \n1\n         \n".toList, .region ⟨.lineComment, "-- c".toList, true⟩] := by
    decide +kernel
  have names : (((body "# A\n#x\n1\n--name: y\n-- c".toList).filterMap
      (Outline.markerIn (body "# A\n#x\n1\n--name: y\n-- c".toList))).map Marker.name) =
        ["x", "y"] ∧
      (((body "#z\n2;3".toList).filterMap
        (Outline.markerIn (body "#z\n2;3".toList))).map Marker.name) = ["z"] := by
    decide +kernel
  refine (parse_append hA hB ?_ rfl ⟨⟨.origin, "#z".toList, ['\n']⟩,
    [⟨⟨3, 2⟩, "2;3".toList, []⟩], by decide +kernel, by decide +kernel⟩ ?_).trans (by decide +kernel)
  · rw [closed]
    simp
  · intro name
    rw [gives_iff, gives_iff, names.1, names.2]
    simp
    rintro (rfl | rfl) <;> decide

end Template

end NamedSql
