import NamedSql.Proofs.RegionContent

namespace NamedSql

namespace Region

@[simp] theorem Kind.head?_opening_untagged (kind : Kind) :
    kind.untagged.opening.head? = kind.opening.head? := by
  cases kind <;> rfl

@[simp] theorem Kind.fits_untagged {kind : Kind} {before : Option Char} :
    kind.untagged.Fits before ↔ kind.Fits before := by
  cases kind <;> rfl

@[simp] theorem Kind.released_untagged {kind : Kind} {rest : List Char} :
    kind.untagged.Released rest ↔ kind.Released rest := by
  cases kind <;> rfl

/-- Two closed regions that differ in their content and in the tag only. -/
structure Alike (r s : Region) : Prop where
  kind : s.kind.untagged = r.kind.untagged
  closed : r.terminated
  closed' : s.terminated

namespace Alike
variable {r s : Region}

theorem shell_eq (h : r.Alike s) : s.shell = r.shell := by
  rw [shell, shell, h.kind, h.closed, h.closed']

theorem fits (h : r.Alike s) {before : Option Char} (hf : r.kind.Fits before) :
    s.kind.Fits before := by
  rwa [← Kind.fits_untagged, h.kind, Kind.fits_untagged]

theorem released (h : r.Alike s) {rest : List Char} (hr : r.Released rest) : s.Released rest := by
  rw [Released, if_pos h.closed] at hr
  rwa [Released, if_pos h.closed', ← Kind.released_untagged, h.kind, Kind.released_untagged]

theorem head?_text (h : r.Alike s) (hr : r.WellFormed) (hs : s.WellFormed) :
    s.text.head? = r.text.head? := by
  rw [hs.head?_text, hr.head?_text, ← Kind.head?_opening_untagged, h.kind,
    Kind.head?_opening_untagged]

/-- Their last characters are the same, line comments apart. -/
theorem getLast?_text (h : r.Alike s) (hr : r.WellFormed) (hs : s.WellFormed)
    (hk : r.kind ≠ .lineComment) : s.text.getLast? = r.text.getLast? := by
  have hk' : s.kind ≠ .lineComment := by
    rwa [Ne, ← Kind.untagged_eq_lineComment_iff, h.kind, Kind.untagged_eq_lineComment_iff]
  rw [hr.getLast?_text h.closed hk, hs.getLast?_text h.closed' hk', h.head?_text hr hs]

end Alike

end Region

namespace Lexeme

variable {before : Option Char} {front back : List Lexeme} {r s : Region}

/-- What follows a region does not see its content. -/
theorem Scanned.after_alike (h : Scanned r.text.getLast? back) (hr : r.WellFormed)
    (hs : s.WellFormed) (ha : r.Alike s) (released : r.Released (join back)) :
    Scanned s.text.getLast? back := by
  by_cases hk : r.kind = .lineComment
  · -- Behind a line comment there is a newline, and that does not look back.
    refine h.congr_before fun hd => ?_
    rw [Region.Released, if_pos ha.closed, hk] at released
    exact absurd (released '$' hd) (by decide)
  · rwa [ha.getLast?_text hr hs hk]

theorem Scanned.exchange (h : Scanned before (front ++ .region r :: back)) (hs : s.WellFormed)
    (ha : r.Alike s) : Scanned before (front ++ .region s :: back) := by
  obtain ⟨hr, -, -, -⟩ := scanned_region_iff.mp h.drop
  obtain ⟨c, cs, hc, -, hi⟩ := hr.exists_text_cons
  have hh : s.text.head? = some c := by rw [ha.head?_text hr hs, hc, List.head?_cons]
  refine h.replace_end ?_ ?_ fun b hb => ?_
  · simp [text, hc, hh]
  · simpa [text, hc] using hi
  · obtain ⟨-, fits, released, rest⟩ := scanned_region_iff.mp hb
    exact .region hs (ha.fits fits) (ha.released released) (rest.after_alike hr hs ha released)

theorem group_map_code_append {cs : List Char} (hc : cs ≠ []) {ls : List Lexeme}
    (h : ∀ s ∈ (group ls).head?, s.isCode = false) :
    group (cs.map .code ++ ls) = .code cs :: group ls := by
  induction cs with
  | nil => exact absurd rfl hc
  | cons c cs ih =>
    rw [List.map_cons, List.cons_append, group]
    cases cs with
    | nil =>
      rw [List.map_nil, List.nil_append]
      cases hg : group ls with
      | nil => rfl
      | cons s rest =>
        cases s with
        | code ds => exact absurd (h (.code ds) (by rw [hg]; rfl)) (by simp [Segment.isCode])
        | region r => rfl
    | cons d ds => rw [ih (List.cons_ne_nil d ds), Segment.addCode]

/-- Segments are gathered from their own lexemes when no two stretches of code touch. -/
theorem group_flatMap_lexemes {segments : List Segment} (hne : ∀ s ∈ segments, s.text ≠ [])
    (h : segments.IsChain fun s t => ¬ (s.isCode ∧ t.isCode)) :
    group (segments.flatMap Segment.lexemes) = segments := by
  induction segments with
  | nil => rfl
  | cons s rest ih =>
    obtain ⟨hs, hr⟩ := List.isChain_cons.mp h
    have hg := ih (fun t ht => hne t (List.mem_cons_of_mem s ht)) hr
    rw [List.flatMap_cons]
    cases s with
    | region r => rw [Segment.lexemes, List.singleton_append, group, hg]
    | code cs =>
      have hc : cs ≠ [] := hne (.code cs) (List.mem_cons_self ..)
      rw [Segment.lexemes, group_map_code_append hc, hg]
      intro t ht
      rw [hg] at ht
      simpa [Segment.isCode] using hs t ht

end Lexeme

namespace Segment

variable {front back : List Segment} {r s : Region}

theorem scan_of_ofText {text : List Char} {segments : List Segment} (h : ofText text = segments) :
    Lexeme.scan none text = segments.flatMap lexemes := by
  rw [← h]
  rfl

theorem wellFormed_of_mem_ofText {text : List Char} (h : .region r ∈ ofText text) :
    r.WellFormed := by
  obtain ⟨front, back, h⟩ := List.append_of_mem h
  exact (region_of_ofText h).1

theorem scan_exchange {text : List Char} (h : ofText text = front ++ .region r :: back)
    (hs : s.WellFormed) (ha : r.Alike s) :
    Lexeme.scan none (join front ++ s.text ++ join back) =
      (front ++ .region s :: back).flatMap lexemes := by
  have hn := Lexeme.scanned_scan none text
  rw [scan_of_ofText h, List.flatMap_append, List.flatMap_cons, lexemes,
    List.singleton_append] at hn
  have := (hn.exchange hs ha).scan_join
  simpa [lexemes, Lexeme.text] using this

/-- Where code touches code can be read off which segments are code. -/
theorem isChain_of_map_isCode {as bs : List Segment} (h : as.map isCode = bs.map isCode)
    (hb : bs.IsChain fun s t => ¬ (s.isCode ∧ t.isCode)) :
    as.IsChain fun s t => ¬ (s.isCode ∧ t.isCode) := by
  have hm : (bs.map isCode).IsChain fun a b => ¬ (a = true ∧ b = true) :=
    (List.isChain_map isCode).mpr hb
  rw [← h] at hm
  exact (List.isChain_map isCode).mp hm

/-- Segments are those of their own text when their lexemes are in order and no two stretches of
code touch. -/
theorem ofText_join {segments : List Segment}
    (hs : Lexeme.Scanned none (segments.flatMap lexemes)) (hne : ∀ s ∈ segments, s.text ≠ [])
    (hchain : segments.IsChain fun s t => ¬ (s.isCode ∧ t.isCode)) :
    ofText (join segments) = segments := by
  have hg := Lexeme.group_flatMap_lexemes hne hchain
  rwa [← hs.scan_join, Lexeme.join_flatMap_lexemes, Lexeme.group_scan] at hg

theorem ofText_exchange {text : List Char} (h : ofText text = front ++ .region r :: back)
    (hs : s.WellFormed) (ha : r.Alike s) :
    ofText (join front ++ s.text ++ join back) = front ++ .region s :: back := by
  have hc : (front ++ .region s :: back).map isCode = (front ++ .region r :: back).map isCode := by
    simp [isCode]
  have hchain := isChain_lex none text
  rw [show lex none text = _ from h] at hchain
  rw [ofText, ← Lexeme.group_scan, scan_exchange h hs ha]
  refine Lexeme.group_flatMap_lexemes ?_ (isChain_of_map_isCode hc hchain)
  intro t ht
  rcases List.mem_append.mp ht with ht | ht
  · exact text_ne_nil_of_mem_lex (show t ∈ ofText text by simp [h, ht])
  · rcases List.mem_cons.mp ht with rfl | ht
    · exact hs.text_ne_nil
    · exact text_ne_nil_of_mem_lex (show t ∈ ofText text by simp [h, ht])

/-- The ranges of segments the first of which begins at byte `start`. -/
def rangesFrom (start : Nat) : List Segment → List (Nat × Nat)
  | [] => []
  | s :: rest => (start, start + byteLength s.text) :: rangesFrom (start + byteLength s.text) rest

theorem ranges_eq_rangesFrom (segments : List Segment) :
    ranges segments = rangesFrom 0 segments := by
  have hl (start : Position) (segments : List Segment) :
      ((locate start segments).map fun x => (x.1.byte, (x.1.after x.2.text).byte)) =
        rangesFrom start.byte segments := by
    induction segments generalizing start with
    | nil => rfl
    | cons s rest ih =>
      rw [locate, List.map_cons, ih, rangesFrom]
      rfl
  exact hl .origin segments

theorem rangesFrom_append (start : Nat) (as bs : List Segment) :
    rangesFrom start (as ++ bs) =
      rangesFrom start as ++ rangesFrom (start + byteLength (join as)) bs := by
  induction as generalizing start with
  | nil => simp [rangesFrom]
  | cons s as ih => simp [rangesFrom, ih, Nat.add_assoc]

theorem rangesFrom_add (start shift : Nat) (segments : List Segment) :
    rangesFrom (start + shift) segments =
      (rangesFrom start segments).map fun (first, stop) => (first + shift, stop + shift) := by
  induction segments generalizing start with
  | nil => rfl
  | cons s rest ih =>
    rw [rangesFrom, rangesFrom, List.map_cons, ← ih, Nat.add_right_comm]

/-- The later ranges are shifted by the difference in length. -/
theorem ranges_exchange (front back : List Segment) (r s : Region) :
    ∃ late, ranges (front ++ .region r :: back) = ranges front ++
        (byteLength (join front), byteLength (join front) + byteLength r.text) :: late ∧
      ranges (front ++ .region s :: back) = ranges front ++
        (byteLength (join front), byteLength (join front) + byteLength s.text) ::
          late.map fun (first, stop) => (first + byteLength s.text - byteLength r.text,
            stop + byteLength s.text - byteLength r.text) := by
  refine ⟨rangesFrom (byteLength (join front) + byteLength r.text) back, ?_, ?_⟩
  · simp [ranges_eq_rangesFrom, rangesFrom_append, rangesFrom, text]
  · simp only [ranges_eq_rangesFrom, rangesFrom_append, rangesFrom, text, Nat.zero_add,
      rangesFrom_add _ (byteLength r.text), rangesFrom_add _ (byteLength s.text), List.map_map]
    refine congrArg _ (congrArg _ (List.map_congr_left fun range _ => ?_))
    simp only [Function.comp_apply, Nat.add_right_comm _ (byteLength r.text), Nat.add_sub_cancel]

end Segment

/-- What becomes of a script when its region `r`, with `front` before it and `back` behind it, is
exchanged for `s`. -/
structure Exchanged (front back : List Segment) (r s : Region) (old new : String) : Prop where
  segments : Segment.ofText new.toList = front ++ .region s :: back
  ranges : ∃ late, Segment.ranges (Segment.ofText old.toList) = Segment.ranges front ++
        (byteLength (Segment.join front), byteLength (Segment.join front) + byteLength r.text) ::
          late ∧
      Segment.ranges (Segment.ofText new.toList) = Segment.ranges front ++
        (byteLength (Segment.join front), byteLength (Segment.join front) + byteLength s.text) ::
          late.map fun (first, stop) => (first + byteLength s.text - byteLength r.text,
            stop + byteLength s.text - byteLength r.text)
  count : (splitStatements new).length = (splitStatements old).length
  analyses : (splitStatements new).map Analysis.ofStatement =
    (splitStatements old).map Analysis.ofStatement
  leadingWords : (splitStatements new).map leadingWord = (splitStatements old).map leadingWord

instance : Nonempty Analysis :=
  ⟨Analysis.ofStatement ""⟩

/-- The content of a closed region is never interpreted: any text that is one closed region of the
same kind may take its place. -/
theorem exchange_region {old content : String} {front back : List Segment} {r s : Region}
    (hold : Segment.ofText old.toList = front ++ .region r :: back)
    (hnew : Segment.ofText content.toList = [.region s]) (ha : r.Alike s) :
    Exchanged front back r s old
      (String.ofList (Segment.join front) ++ content ++ String.ofList (Segment.join back)) := by
  have hs : s.WellFormed := Segment.wellFormed_of_mem_ofText (hnew ▸ List.mem_singleton.mpr rfl)
  have ht : content.toList = s.text := by
    rw [← Segment.join_ofText content.toList, hnew]
    simp [Segment.text]
  generalize hn : String.ofList (Segment.join front) ++ content ++
    String.ofList (Segment.join back) = new
  have hc : new.toList = Segment.join front ++ s.text ++ Segment.join back := by
    simp [← hn, ht]
  have hsegments : Segment.ofText new.toList = front ++ .region s :: back := by
    rw [hc, Segment.ofText_exchange hold hs ha]
  have hshell : (Lexeme.scan none new.toList).map Lexeme.shell =
      (Lexeme.scan none old.toList).map Lexeme.shell := by
    rw [Segment.scan_of_ofText hsegments, Segment.scan_of_ofText hold]
    simp [Segment.lexemes, ha.shell_eq]
  have hranges := Segment.ranges_exchange front back r s
  rw [← hold, ← hsegments] at hranges
  have hanalyses := map_splitStatements_eq_of_shell Analysis.ofStatement_factorsThrough hshell
  refine ⟨hsegments, hranges, ?_, hanalyses,
    map_splitStatements_eq_of_shell leadingWord_factorsThrough hshell⟩
  simpa using congrArg List.length hanalyses

theorem exchange_region_dollar_body :
    Exchanged [.code "DO ".toList] [.code "; SELECT :v".toList]
      ⟨.dollarQuoted ['a'], "$a$x$a$".toList, true⟩
      ⟨.dollarQuoted [], "$$;'$a$ :p--$$".toList, true⟩
      "DO $a$x$a$; SELECT :v" "DO $$;'$a$ :p--$$; SELECT :v" := by
  have hold : Segment.ofText "DO $a$x$a$; SELECT :v".toList = [.code "DO ".toList] ++
      .region ⟨.dollarQuoted ['a'], "$a$x$a$".toList, true⟩ :: [.code "; SELECT :v".toList] := by
    decide +kernel
  have hnew : Segment.ofText "$$;'$a$ :p--$$".toList =
      [.region ⟨.dollarQuoted [], "$$;'$a$ :p--$$".toList, true⟩] := by
    decide +kernel
  exact exchange_region hold hnew ⟨rfl, rfl, rfl⟩

end NamedSql
