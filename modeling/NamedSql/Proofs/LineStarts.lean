import Mathlib.Data.List.Infix
import NamedSql.Proofs.LexemeTrim

namespace NamedSql

namespace Region

theorem through?_cons_of_ne {c d : Char} (h : d ≠ c) (needle cs : List Char) :
    through? (d :: needle) (c :: cs) =
      (through? (d :: needle) cs).map (Prod.map (c :: ·) id) := by
  have hp : (d :: needle).isPrefixOf (c :: cs) = false := by
    simp [List.isPrefixOf, h]
  rw [through?, hp, if_neg Bool.false_ne_true]
  rfl

/-- A search that has failed goes on behind a character that is not in the needle. -/
theorem through?_resume {needle cs : List Char} {c : Char} (hc : c ∉ needle)
    (h : through? needle cs = none) (more : List Char) :
    through? needle (cs ++ c :: more) =
      (through? needle more).map (Prod.map (cs ++ c :: ·) id) := by
  cases needle with
  | nil => cases cs <;> simp [through?] at h
  | cons d needle =>
    induction cs with
    | nil =>
      have hd : d ≠ c := fun hd => hc (hd ▸ List.mem_cons_self ..)
      exact through?_cons_of_ne hd needle more
    | cons e cs ih =>
      rw [through?] at h
      split at h
      · cases h
      · rename_i hp
        -- The needle cannot begin in front of `c` and reach over it.
        have hq : ¬ (d :: needle).isPrefixOf (e :: (cs ++ c :: more)) := by
          intro hq
          have hq := List.isPrefixOf_iff_prefix.mp hq
          have hf : (e :: cs) ++ [c] <+: e :: (cs ++ c :: more) := ⟨more, by simp⟩
          rcases List.prefix_or_prefix_of_prefix hq hf with hn | hn
          · rcases List.prefix_concat_iff.mp hn with he | hn
            · exact hc (he ▸ List.mem_append_right _ (List.mem_singleton.mpr rfl))
            · exact hp (List.isPrefixOf_iff_prefix.mpr hn)
          · exact hc (hn.subset (List.mem_append_right _ (List.mem_singleton.mpr rfl)))
        rw [List.cons_append, through?, if_neg hq, ih (Option.map_eq_none_iff.mp h), Option.map_map]
        rfl

theorem throughQuote?_resume {quote c : Char} {cs : List Char} (hc : c ≠ quote)
    (h : throughQuote? quote cs = none) (more : List Char) :
    throughQuote? quote (cs ++ c :: more) =
      (throughQuote? quote more).map (Prod.map (cs ++ c :: ·) id) := by
  fun_induction throughQuote? quote cs with
  | case1 => exact throughQuote?_content hc more
  | case2 => cases h
  | case3 d hd =>
    rw [List.singleton_append, throughQuote?_content hd, throughQuote?_content hc, Option.map_map]
    rfl
  | case4 d e cs hd ih =>
    rw [List.cons_append, throughQuote?_content hd, ih (Option.map_eq_none_iff.mp h),
      Option.map_map]
    rfl
  | case5 => cases h
  | case6 d e cs hd he ih =>
    obtain rfl := Classical.not_not.mp hd
    obtain rfl := Classical.not_not.mp he
    rw [List.cons_append, List.cons_append, throughQuote?_doubled,
      ih (Option.map_eq_none_iff.mp h), Option.map_map]
    rfl

/-- Characters that no closing delimiter begins with. -/
def isQuiet (c : Char) : Bool :=
  !(['*', '\'', '"', '$'].contains c)

theorem ne_of_isQuiet {c : Char} (h : isQuiet c) : '*' ≠ c ∧ c ≠ '\'' ∧ c ≠ '"' ∧ '$' ≠ c := by
  refine ⟨?_, ?_, ?_, ?_⟩ <;> rintro rfl <;> simp [isQuiet] at h

theorem Kind.close?_cons_quiet {kind : Kind} (hk : kind ≠ .lineComment) {c : Char} (h : isQuiet c)
    (more : List Char) :
    kind.close? (c :: more) = (kind.close? more).map (Prod.map (c :: ·) id) := by
  obtain ⟨hs, hq, hd, hv⟩ := ne_of_isQuiet h
  cases kind with
  | singleQuoted => exact throughQuote?_content hq more
  | doubleQuoted => exact throughQuote?_content hd more
  | lineComment => exact absurd rfl hk
  | blockComment => exact through?_cons_of_ne hs ['/'] more
  | dollarQuoted tag => exact through?_cons_of_ne hv (tag ++ ['$']) more

theorem Kind.close?_append_quiet {kind : Kind} (hk : kind ≠ .lineComment) {cs : List Char}
    (h : ∀ c ∈ cs, isQuiet c) (more : List Char) :
    kind.close? (cs ++ more) = (kind.close? more).map (Prod.map (cs ++ ·) id) := by
  induction cs with
  | nil =>
    rw [List.nil_append]
    cases kind.close? more <;> rfl
  | cons c cs ih =>
    rw [List.cons_append, close?_cons_quiet hk (h c (List.mem_cons_self ..)),
      ih fun d hd => h d (List.mem_cons_of_mem c hd), Option.map_map]
    rfl

theorem Kind.newline_not_mem_opening {kind : Kind} (h : kind.Tagged) : '\n' ∉ kind.opening := by
  cases kind with
  | dollarQuoted tag =>
    have ht : '\n' ∉ tag := by
      rcases h with rfl | h
      · exact List.not_mem_nil
      · intro hm
        exact absurd (all_rest_of_isIdentifier h _ hm) (by decide)
    simpa [opening] using ht
  | _ => decide

/-- A region that is not closed in the first lines goes on behind them. -/
theorem Kind.close?_resume {kind : Kind} (ht : kind.Tagged) (hk : kind ≠ .lineComment)
    {cs : List Char} (h : kind.close? cs = none) (more : List Char) :
    kind.close? (cs ++ '\n' :: more) = (kind.close? more).map (Prod.map (cs ++ '\n' :: ·) id) := by
  cases kind with
  | singleQuoted => exact throughQuote?_resume (by decide) h more
  | doubleQuoted => exact throughQuote?_resume (by decide) h more
  | lineComment => exact absurd rfl hk
  | blockComment => exact through?_resume (by decide) h more
  | dollarQuoted tag => exact through?_resume (newline_not_mem_opening ht) h more

namespace WellFormed
variable {r : Region}

theorem getLast?_ne_newline (h : r.WellFormed) (ht : r.terminated) :
    r.text.getLast? ≠ some '\n' := by
  intro hl
  by_cases hk : r.kind = .lineComment
  · obtain ⟨inner, hi, hc⟩ := h.closes
    rw [if_pos ht, hk, Kind.close?_lineComment_iff] at hc
    rw [hk] at hi
    have hm : '\n' ∈ Kind.lineComment.opening ++ inner := hi ▸ List.mem_of_getLast? hl
    rcases List.mem_append.mp hm with hm | hm
    · exact absurd hm (by decide)
    · exact hc _ hm rfl
  · exact absurd (h.isBlank_getLast?_text ht hk _ hl) (by decide)

/-- The line break at which an open region ends is not part of its opening delimiter. -/
theorem exists_body_newline (h : r.WellFormed) (ht : r.terminated = false)
    (hl : r.text.getLast? = some '\n') :
    ∃ body, r.text = r.kind.opening ++ (body ++ ['\n']) ∧ r.kind.close? body = none := by
  obtain ⟨inner, hi, hc⟩ := h.closes
  have hk := h.kind_ne_lineComment ht
  rw [ht, if_neg Bool.false_ne_true] at hc
  rcases List.eq_nil_or_concat inner with rfl | ⟨body, c, rfl⟩
  · rw [hi, List.append_nil] at hl
    exact absurd (List.mem_of_getLast? hl) (Kind.newline_not_mem_opening h.tagged)
  · rw [List.concat_eq_append] at hi hc
    obtain rfl : c = '\n' := by simpa [hi] using hl
    have hr : r.kind.Released ['\n'] :=
      Kind.released_of_inert hk (by simpa using isInert_newline)
    exact ⟨body, hi, Kind.close?_eq_none_of_append hk hr hc⟩

end WellFormed

end Region

/-- A line begins behind the text. -/
def AtLineStart (text : List Char) : Prop :=
  ∀ c ∈ text.getLast?, c = '\n'

namespace Lexeme

/-- What an open region becomes when the text goes on. -/
def resume (r : Region) (more : List Char) : List Lexeme :=
  match r.kind.close? more with
  | some (inner, rest) => .region ⟨r.kind, r.text ++ inner, true⟩ :: scan inner.getLast? rest
  | none => [.region ⟨r.kind, r.text ++ more, false⟩]

@[simp] theorem join_resume (r : Region) (more : List Char) :
    join (resume r more) = r.text ++ more := by
  unfold resume
  split
  · rename_i inner rest hc
    simp [text, Region.Kind.append_of_close? hc]
  · simp [text]

theorem scanned_resume {before : Option Char} {r : Region} (shape : r.WellFormed)
    (fits : r.kind.Fits before) (ht : r.terminated = false) (hl : r.text.getLast? = some '\n')
    (more : List Char) : Scanned before (resume r more) := by
  obtain ⟨body, hb, hn⟩ := shape.exists_body_newline ht hl
  have hk := shape.kind_ne_lineComment ht
  have hc := Region.Kind.close?_resume shape.tagged hk hn more
  unfold resume
  split
  · rename_i inner rest hm
    have hj : body ++ '\n' :: more = (body ++ '\n' :: inner) ++ rest := by
      simp [← Region.Kind.append_of_close? hm]
    rw [hm, hj] at hc
    obtain ⟨hi, hr⟩ := Region.Kind.close?_append_iff.mp hc
    refine .region ⟨shape.tagged, body ++ '\n' :: inner, by simp [hb], hi⟩ fits
      (by rwa [join_scan]) ?_
    obtain ⟨c, cs, ho, -⟩ := r.kind.exists_opening_cons
    have hg : inner.getLast? = some c := by
      rw [Region.Kind.getLast?_of_close? hk hm, ho, List.head?_cons]
    have he : (r.text ++ inner).getLast? = inner.getLast? := by
      rw [List.getLast?_append, hg, Option.some_or]
    rw [he]
    exact scanned_scan inner.getLast? rest
  · rename_i hm
    rw [hm] at hc
    exact .region ⟨shape.tagged, body ++ '\n' :: more, by simp [hb], hc⟩ fits rfl .nil

theorem Scanned.closed_or_open {before : Option Char} {ls : List Lexeme} (h : Scanned before ls) :
    Closed ls ∨ ∃ front r, ls = front ++ [.region r] ∧ r.terminated = false := by
  induction h with
  | nil => exact .inl closed_nil
  | @code _ c _ _ _ ih =>
    rcases ih with ih | ⟨front, r, rfl, hr⟩
    · exact .inl (closed_code_iff.mpr ih)
    · exact .inr ⟨.code c :: front, r, rfl, hr⟩
  | @region _ r ls _ _ released rest ih =>
    cases ht : r.terminated with
    | false =>
      rw [rest.eq_nil_of_join (released.eq_nil ht)]
      exact .inr ⟨[], r, rfl, ht⟩
    | true =>
      rcases ih with ih | ⟨front, s, rfl, hs⟩
      · exact .inl (closed_region_iff.mpr ⟨ht, ih⟩)
      · exact .inr ⟨.region r :: front, s, rfl, hs⟩

variable {lines : List Char}

theorem scan_append_of_closed (hl : AtLineStart lines) (h : Closed (scan none lines))
    (more : List Char) : scan none (lines ++ more) = scan none lines ++ scan none more := by
  have hs := scanned_scan none lines
  have hj := join_scan none lines
  generalize scan none lines = ls at h hs hj
  subst hj
  rcases List.eq_nil_or_concat ls with rfl | ⟨front, l, rfl⟩
  · rfl
  rw [List.concat_eq_append] at h hs hl ⊢
  cases l with
  | region r =>
    obtain ⟨shape, -, -, -⟩ := scanned_region_iff.mp hs.drop
    have ht : r.terminated := h r (by simp)
    obtain ⟨cs, c, hr⟩ := (List.eq_nil_or_concat r.text).resolve_left shape.text_ne_nil
    rw [List.concat_eq_append] at hr
    obtain rfl : c = '\n' := hl c (by simp [text, hr])
    exact absurd (by simp [hr]) (shape.getLast?_ne_newline ht)
  | code c =>
    obtain rfl : c = '\n' := hl c (by simp [text])
    obtain ⟨hf, hc, hn, -⟩ := (scanned_append_inert_iff isInert_newline).mp hs
    have hnew : Scanned none (front ++ .code '\n' :: scan none more) :=
      (scanned_append_inert_iff isInert_newline).mpr
        ⟨hf, hc, hn, (scanned_after_inert_iff isInert_newline).mpr (scanned_scan none more)⟩
    simpa [text] using hnew.scan_join

theorem scan_append_of_open (hl : AtLineStart lines) {front : List Lexeme} {r : Region}
    (h : scan none lines = front ++ [.region r]) (ht : r.terminated = false) (more : List Char) :
    scan none (lines ++ more) = front ++ resume r more := by
  have hs := scanned_scan none lines
  have hj := join_scan none lines
  rw [h] at hs hj
  subst hj
  obtain ⟨shape, -, -, -⟩ := scanned_region_iff.mp hs.drop
  obtain ⟨c, cs, hr, -, hi⟩ := shape.exists_text_cons
  have hn : r.text.getLast? = some '\n' := by
    cases hg : r.text.getLast? with
    | none => exact absurd (List.getLast?_eq_none_iff.mp hg) shape.text_ne_nil
    | some d => rw [hl d (by simp [text, hg])]
  have hnew : Scanned none (front ++ resume r more) := by
    refine hs.replace_end ?_ ?_ fun b hb => ?_
    · simp [text, hr]
    · simpa [text, hr] using hi
    · exact scanned_resume shape (scanned_region_iff.mp hb).2.1 ht hn more
  simpa [text] using hnew.scan_join

/-- Behind a line break the scan begins anew, or goes on with the region that is open there. -/
theorem scan_lines (hl : AtLineStart lines) :
    (∀ more, scan none (lines ++ more) = scan none lines ++ scan none more) ∨
      ∃ front r, r.kind ≠ .lineComment ∧
        ∀ more, scan none (lines ++ more) = front ++ resume r more := by
  rcases (scanned_scan none lines).closed_or_open with h | ⟨front, r, h, ht⟩
  · exact .inl (scan_append_of_closed hl h)
  · have hs := scanned_scan none lines
    rw [h] at hs
    have hk := (scanned_region_iff.mp hs.drop).1.kind_ne_lineComment ht
    exact .inr ⟨front, r, hk, scan_append_of_open hl h ht⟩

end Lexeme

end NamedSql
