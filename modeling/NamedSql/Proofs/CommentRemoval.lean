import NamedSql.Comment
import NamedSql.Proofs.TokenRuns

namespace NamedSql

namespace Region

theorem Kind.comment_cases (kind : Kind) :
    kind = .lineComment ∨ kind = .blockComment ∨ kind.isComment = false := by
  cases kind <;> simp [isComment]

variable {r : Region}

theorem WellFormed.head?_of_lineComment {rest : List Char} (h : r.WellFormed)
    (hr : r.Released rest) (hk : r.kind = .lineComment) : ∀ c ∈ rest.head?, c = '\n' := by
  cases ht : r.terminated with
  | true =>
    rw [Released, if_pos ht, hk] at hr
    exact hr
  | false => exact absurd hk (h.kind_ne_lineComment ht)

theorem WellFormed.getLast?_of_blockComment (h : r.WellFormed) (ht : r.terminated)
    (hk : r.kind = .blockComment) : r.text.getLast? = some '/' := by
  obtain ⟨inner, hi, -⟩ := h.closes
  rw [h.getLast?_text ht (by simp [hk]), hi, hk]
  rfl

end Region

namespace Segment

def regions (segments : List Segment) : List Region :=
  segments.filterMap fun
    | .code _ => none
    | .region r => some r

/-- The regions that are not comments. -/
def literals (segments : List Segment) : List Region :=
  (regions segments).filter fun r => !r.kind.isComment

theorem regions_flatMap_lexemes (segments : List Segment) :
    Lexeme.regions (segments.flatMap lexemes) = regions segments := by
  induction segments with
  | nil => rfl
  | cons s segments ih =>
    rw [List.flatMap_cons, Lexeme.regions, List.filterMap_append, ← Lexeme.regions,
      ← Lexeme.regions, ih]
    cases s with
    | code cs => simp [lexemes, Lexeme.regions, regions]
    | region r => rfl

theorem mem_regions_iff {segments : List Segment} {r : Region} :
    r ∈ regions segments ↔ .region r ∈ segments := by
  simp only [regions, List.mem_filterMap]
  constructor
  · intro h
    obtain ⟨s, hs, he⟩ := h
    cases s with
    | code cs => cases he
    | region r' =>
      cases he
      exact hs
  · intro h
    exact ⟨.region r, h, rfl⟩

/-- Where there are no comments, nothing is removed. -/
theorem flatMap_withoutComment {segments : List Segment}
    (h : ∀ r, .region r ∈ segments → r.kind.isComment = false) :
    segments.flatMap withoutComment = join segments := by
  induction segments with
  | nil => rfl
  | cons s segments ih =>
    rw [List.flatMap_cons, join_cons, ih fun r hr => h r (List.mem_cons_of_mem s hr)]
    congr 1
    cases s with
    | code cs => rfl
    | region r =>
      have hr := h r (List.mem_cons_self ..)
      cases hk : r.kind <;> simp_all [withoutComment, text, Region.Kind.isComment]

end Segment

namespace Lexeme

def withoutComment : Lexeme → List Lexeme
  | .code c => [.code c]
  | .region r =>
    match r.kind with
    | .lineComment => []
    | .blockComment => [.code ' ']
    | _ => [.region r]

def strip (ls : List Lexeme) : List Lexeme :=
  ls.flatMap withoutComment

@[simp] theorem strip_nil : strip [] = [] := rfl

@[simp] theorem strip_code (c : Char) (ls : List Lexeme) :
    strip (.code c :: ls) = .code c :: strip ls := rfl

theorem strip_append (as bs : List Lexeme) : strip (as ++ bs) = strip as ++ strip bs :=
  List.flatMap_append

theorem strip_lineComment {r : Region} (hk : r.kind = .lineComment) (ls : List Lexeme) :
    strip (.region r :: ls) = strip ls := by
  simp [strip, withoutComment, hk]

theorem strip_blockComment {r : Region} (hk : r.kind = .blockComment) (ls : List Lexeme) :
    strip (.region r :: ls) = .code ' ' :: strip ls := by
  simp [strip, withoutComment, hk]

theorem strip_literal {r : Region} (hk : r.kind.isComment = false) (ls : List Lexeme) :
    strip (.region r :: ls) = .region r :: strip ls := by
  cases h : r.kind <;> simp_all [strip, withoutComment, Region.Kind.isComment]

theorem regions_strip (ls : List Lexeme) :
    regions (strip ls) = (regions ls).filter fun r => !r.kind.isComment := by
  induction ls with
  | nil => rfl
  | cons l ls ih =>
    cases l with
    | code c => exact ih
    | region r =>
      rcases r.kind.comment_cases with hk | hk | hk
      · simp [strip_lineComment hk, hk, Region.Kind.isComment, ih]
      · simp [strip_blockComment hk, hk, Region.Kind.isComment, ih]
      · simp [strip_literal hk, hk, ih]

theorem join_strip_lexemes (segments : List Segment) :
    join (strip (segments.flatMap Segment.lexemes)) = segments.flatMap Segment.withoutComment := by
  induction segments with
  | nil => rfl
  | cons s segments ih =>
    rw [List.flatMap_cons, strip_append, join_append, ih, List.flatMap_cons]
    congr 1
    cases s with
    | code cs =>
      have hc : strip (cs.map .code) = cs.map .code := by
        induction cs with
        | nil => rfl
        | cons c cs ih => rw [List.map_cons, strip_code, ih]
      rw [Segment.lexemes, hc, join_map_code]
      rfl
    | region r =>
      cases hk : r.kind <;>
        simp [Segment.lexemes, strip, withoutComment, Segment.withoutComment, hk, text]

/-- Nothing that removing a comment brings together looks like a delimiter from in front. -/
theorem Scanned.tamer_strip {before : Option Char} {ls : List Lexeme} (h : Scanned before ls) :
    Tamer (join (strip ls)) (join ls) := by
  induction h with
  | nil => exact .refl _
  | code _ _ ih => exact ih.cons _
  | @region _ r ls shape _ released _ ih =>
    obtain ⟨d, ds, hr, -, hd⟩ := shape.exists_text_cons
    have ho : ∀ c ∈ (join (.region r :: ls)).head?, isIdentifierRest c = false := by
      simpa [text, hr] using hd
    rcases r.kind.comment_cases with hk | hk | hk
    · rw [strip_lineComment hk]
      refine .of_inert ?_ ho
      intro c hc
      rcases ih.head? with he | hi
      · rw [shape.head?_of_lineComment released hk c (he ▸ hc)]
        exact isInert_newline
      · exact hi c hc
    · rw [strip_blockComment hk]
      refine .of_inert ?_ ho
      simpa [text] using isInert_space
    · rw [strip_literal hk]
      exact ih.append_left r.text

/-- Without its comments a scan is a scan still. The character in front may be another one, unless
the text begins with a dollar sign. -/
theorem Scanned.strip {b b' : Option Char} {ls : List Lexeme} (h : Scanned b ls)
    (hb : (join ls).head? = some '$' → b.any isNameChar = b'.any isNameChar) :
    Scanned b' (Lexeme.strip ls) := by
  induction h generalizing b' with
  | nil => exact .nil
  | code free rest ih =>
    rw [strip_code]
    refine .code (Region.Kind.opens?_eq_none_of_tamer rest.tamer_strip ?_) (ih fun _ => rfl)
    exact (Region.Kind.opens?_congr_before hb).symm.trans free
  | @region _ r ls shape fits released rest ih =>
    rcases r.kind.comment_cases with hk | hk | hk
    · rw [strip_lineComment hk]
      apply ih
      intro hd
      exact absurd (shape.head?_of_lineComment released hk '$' hd) (by decide)
    · rw [strip_blockComment hk]
      refine .code (Region.Kind.opens?_inert isInert_space _ _) (ih ?_)
      intro hd
      have ht : r.terminated := by
        cases ht : r.terminated with
        | true => rfl
        | false => simp [released.eq_nil ht] at hd
      rw [shape.getLast?_of_blockComment ht hk]
      decide
    · rw [strip_literal hk]
      have hf := shape.fits_congr (fun hs => hb (by simp [text, hs])) fits
      refine .region shape hf ?_ (ih fun _ => rfl)
      cases ht : r.terminated with
      | true => exact released.of_tamer ht (Region.Kind.ne_lineComment hk) rest.tamer_strip
      | false =>
        obtain rfl := rest.eq_nil_of_join (released.eq_nil ht)
        exact released

theorem startsWord_of_head? {ls : List Lexeme} (h : ∀ c ∈ (join ls).head?, Token.inWord c = false) :
    startsWord ls = false := by
  cases ls with
  | nil => rfl
  | cons l ls =>
    cases l with
    | code c => exact h c rfl
    | region r => rfl

theorem Scanned.sameTokens_strip {before : Option Char} {ls : List Lexeme} (h : Scanned before ls) :
    SameTokens (Lexeme.strip ls) ls := by
  induction h with
  | nil => exact .refl []
  | code _ _ ih => exact ih.cons _
  | @region _ r ls shape _ released _ ih =>
    rcases r.kind.comment_cases with hk | hk | hk
    · have hs : startsWord ls = false := startsWord_of_head? fun c hc => by
        rw [shape.head?_of_lineComment released hk c hc]
        decide
      rw [strip_lineComment hk]
      refine ⟨?_, ih.start.trans hs⟩
      rw [ih.tokens, tokens_region, Token.ofSegment, hk]
      rfl
    · rw [strip_blockComment hk]
      refine ⟨?_, show Token.inWord ' ' = false by decide⟩
      rw [tokens_space (by decide), ih.tokens, tokens_region, Token.ofSegment, hk]
      rfl
    · rw [strip_literal hk]
      exact ih.cons _

theorem spaced_strip {ls : List Lexeme} (h : Spaced ls) : Spaced (strip ls) := by
  induction ls with
  | nil => exact h
  | cons l ls ih =>
    cases l with
    | code c =>
      obtain ⟨hc, hls⟩ := spaced_code_iff.mp h
      exact spaced_code_iff.mpr ⟨hc, ih hls⟩
    | region r =>
      have hls := ih (spaced_region_iff.mp h)
      rcases r.kind.comment_cases with hk | hk | hk
      · rwa [strip_lineComment hk]
      · rw [strip_blockComment hk]
        exact spaced_code_iff.mpr ⟨fun _ => by decide, hls⟩
      · rw [strip_literal hk]
        exact spaced_region_iff.mpr hls

end Lexeme

theorem stripComments_eq (text : List Char) :
    stripComments text = trim (Lexeme.join (Lexeme.strip (Lexeme.scan none text))) := by
  rw [stripComments, ← Lexeme.join_strip_lexemes]
  rfl

theorem scan_stripComments (text : List Char) :
    Lexeme.scan none (stripComments text) =
      Lexeme.trimEnd (Lexeme.trimStart (Lexeme.strip (Lexeme.scan none text))) := by
  have hs := (Lexeme.scanned_scan none text).strip fun _ => rfl
  have hp : Lexeme.Plain (Lexeme.strip (Lexeme.scan none text)) := by
    intro r hr
    rw [Lexeme.regions_strip] at hr
    simpa using (List.mem_filter.mp hr).2
  rw [stripComments_eq]
  exact Lexeme.scan_trim hs hp

theorem regions_stripComments (text : List Char) :
    Segment.regions (Segment.ofText (stripComments text)) =
      (Segment.literals (Segment.ofText text)).map Region.trimOpen := by
  have hs := congrArg Lexeme.regions (scan_stripComments text)
  rw [Lexeme.regions_trimEnd, Lexeme.regions_trimStart, Lexeme.regions_strip] at hs
  rw [← Segment.regions_flatMap_lexemes, Segment.literals, ← Segment.regions_flatMap_lexemes]
  exact hs

theorem isComment_of_mem_stripComments {text : List Char} {r : Region}
    (h : .region r ∈ Segment.ofText (stripComments text)) : r.kind.isComment = false := by
  rw [← Segment.mem_regions_iff, regions_stripComments] at h
  obtain ⟨r', hr', rfl⟩ := List.mem_map.mp h
  simpa using (List.mem_filter.mp hr').2

theorem literals_stripComments (text : List Char) :
    Segment.literals (Segment.ofText (stripComments text)) =
      (Segment.literals (Segment.ofText text)).map Region.trimOpen := by
  rw [← regions_stripComments, Segment.literals, List.filter_eq_self]
  intro r hr
  simp [isComment_of_mem_stripComments (Segment.mem_regions_iff.mp hr)]

theorem stripComments_stripComments (text : List Char) :
    stripComments (stripComments text) = stripComments text := by
  have h : ∀ r, .region r ∈ Segment.ofText (stripComments text) → r.kind.isComment = false :=
    fun _ => isComment_of_mem_stripComments
  rw [stripComments, Segment.flatMap_withoutComment h, Segment.join_ofText, trim_stripComments]

theorem spaced_scan {text : List Char}
    (h : ∀ cs, .code cs ∈ Segment.ofText text → ∀ c ∈ cs,
      c ≠ '\x0b' ∧ (isBlank c → c.toNat < 128)) : Lexeme.Spaced (Lexeme.scan none text) := by
  intro c hc hb
  obtain ⟨s, hs, hm⟩ := List.mem_flatMap.mp hc
  cases s with
  | region r => simp [Segment.lexemes] at hm
  | code cs =>
    have hm : c ∈ cs := by simpa [Segment.lexemes] using hm
    obtain ⟨hv, ha⟩ := h cs hs c hm
    exact Token.isSpace_of_isBlank hb (ha hb) hv

theorem ofText_stripComments {text : List Char} (h : Lexeme.Spaced (Lexeme.scan none text)) :
    Token.ofText (stripComments text) = Token.ofText text := by
  have hs := Lexeme.spaced_strip h
  rw [← Lexeme.tokens_scan, scan_stripComments,
    (Lexeme.sameTokens_trimEnd (Lexeme.spaced_trimStart hs)).tokens, Lexeme.tokens_trimStart hs,
    (Lexeme.scanned_scan none text).sameTokens_strip.tokens, Lexeme.tokens_scan]

/-- A script without its comments, scanned again. -/
theorem removeComments_rescan (sql : String) :
    (∀ r, .region r ∈ Segment.ofText (removeComments sql).toList → r.kind.isComment = false) ∧
    Segment.literals (Segment.ofText (removeComments sql).toList) =
      (Segment.literals (Segment.ofText sql.toList)).map Region.trimOpen ∧
    removeComments (removeComments sql) = removeComments sql ∧
    ((∀ cs, .code cs ∈ Segment.ofText sql.toList → ∀ c ∈ cs,
        c ≠ '\x0b' ∧ (isBlank c → c.toNat < 128)) →
      Token.ofText (removeComments sql).toList = Token.ofText sql.toList) := by
  have hl : (removeComments sql).toList = stripComments sql.toList := String.toList_ofList
  rw [hl]
  refine ⟨?_, literals_stripComments _, ?_, ?_⟩
  · intro r hr
    exact isComment_of_mem_stripComments hr
  · rw [removeComments, hl, stripComments_stripComments]
    rfl
  · intro h
    exact ofText_stripComments (spaced_scan h)

theorem removeComments_rescan_open_string :
    Segment.literals (Segment.ofText (removeComments "a-/**/-b/* */$$--$$-- c\n'--d \n").toList) =
        [⟨.dollarQuoted [], "$$--$$".toList, true⟩, ⟨.singleQuoted, "'--d".toList, false⟩] ∧
      Token.ofText (removeComments "a-/**/-b/* */$$--$$-- c\n'--d \n").toList =
        Token.ofText "a-/**/-b/* */$$--$$-- c\n'--d \n".toList := by
  have h : Segment.ofText "a-/**/-b/* */$$--$$-- c\n'--d \n".toList = [.code ['a', '-'],
      .region ⟨.blockComment, "/**/".toList, true⟩, .code ['-', 'b'],
      .region ⟨.blockComment, "/* */".toList, true⟩,
      .region ⟨.dollarQuoted [], "$$--$$".toList, true⟩,
      .region ⟨.lineComment, "-- c".toList, true⟩, .code ['\n'],
      .region ⟨.singleQuoted, "'--d \n".toList, false⟩] := by decide +kernel
  obtain ⟨-, hl, -, ht⟩ := removeComments_rescan "a-/**/-b/* */$$--$$-- c\n'--d \n"
  refine ⟨hl.trans ?_, ht ?_⟩
  · rw [h]
    decide
  · rw [h]
    simp only [List.mem_cons, Segment.code.injEq, reduceCtorEq, List.not_mem_nil, or_false,
      false_or]
    intro cs hcs
    rcases hcs with rfl | rfl | rfl <;> simp

end NamedSql
