import NamedSql.Proofs.Extents
import NamedSql.Proofs.SplitJoin

namespace NamedSql

open Lexeme

/-- Behind the text a line begins, and no region is open there. -/
structure Clear (text : List Char) : Prop where
  lineStart : AtLineStart text
  closed : Closed (scan none text)

/-- Whether a region was left open can be read off the extents. A line comment never is. -/
theorem Lexeme.Scanned.closed_iff_extents {before : Option Char} {ls : List Lexeme}
    (h : Scanned before ls) (start : Nat) :
    Closed ls ↔ ∀ e ∈ extents start ls, e.terminated := by
  induction h generalizing start with
  | nil => simp [extents]
  | @code _ c _ _ _ ih => rw [closed_code_iff, extents, ih (start + c.utf8Size)]
  | @region _ r ls shape _ _ _ ih =>
    rw [closed_region_iff, extents, List.forall_mem_append, ih (start + byteLength r.text)]
    by_cases hk : r.kind = .lineComment
    · have ht : r.terminated := by
        by_contra hn
        exact shape.kind_ne_lineComment (by simpa using hn) hk
      simp [hk, ht]
    · simp [hk]

theorem closed_scan_iff_extents (text : List Char) :
    Closed (scan none text) ↔ ∀ e ∈ Outline.extents text, e.terminated := by
  rw [← extents_scan]
  exact (scanned_scan none text).closed_iff_extents 0

/-- An open region, or the closed one that it becomes, reaches over the line start behind it. -/
theorem exists_extent_resume {r : Region} (hk : r.kind ≠ .lineComment) {more : List Char}
    (hm : more ≠ []) (start : Nat) : ∃ length terminated,
      ⟨start, r.kind, length, terminated⟩ ∈ extents start (resume r more) ∧
        byteLength r.text < length := by
  unfold resume
  split
  · rename_i inner rest hc
    obtain ⟨c, cs, hd, -⟩ := r.kind.exists_opening_cons
    have hi : inner ≠ [] := by
      rintro rfl
      simpa [hd] using Region.Kind.getLast?_of_close? hk hc
    have hpos := byteLength_pos hi
    refine ⟨byteLength (r.text ++ inner), true, by simp [extents, hk], ?_⟩
    rw [byteLength_append]
    omega
  · have hpos := byteLength_pos hm
    refine ⟨byteLength (r.text ++ more), false, by simp [extents, hk], ?_⟩
    rw [byteLength_append]
    omega

/-- A line that begins inside no opaque region begins outside all regions. -/
theorem clear_of_not_enclosed {lines more : List Char} (hl : AtLineStart lines) (hm : more ≠ [])
    (h : ((Outline.extents (lines ++ more)).any fun e =>
      e.start < byteLength lines && byteLength lines < e.start + e.length) = false) :
    Clear lines := by
  refine ⟨hl, ?_⟩
  rcases (scanned_scan none lines).closed_or_open with hc | ⟨front, r, hs, ht⟩
  · exact hc
  · have hn := scanned_scan none lines
    have hj := congrArg byteLength (join_scan none lines)
    rw [hs] at hn hj
    obtain ⟨shape, -, -, -⟩ := scanned_region_iff.mp hn.drop
    obtain ⟨length, terminated, he, hlen⟩ :=
      exists_extent_resume (shape.kind_ne_lineComment ht) hm (byteLength (join front))
    have hmem : ⟨byteLength (join front), r.kind, length, terminated⟩ ∈
        Outline.extents (lines ++ more) := by
      rw [← extents_scan, scan_append_of_open hl hs ht, extents_append, Nat.zero_add]
      exact List.mem_append_right _ he
    have hpos := byteLength_pos shape.text_ne_nil
    have hno := List.any_eq_false.mp h _ hmem
    simp only [join_append, join_cons, join_nil, text, List.append_nil, byteLength_append] at hj
    simp only [Bool.and_eq_true, decide_eq_true_eq] at hno
    omega

namespace Clear
variable {text more : List Char} {c : Char}

theorem not_endsInLineComment (h : Clear text) : ¬ EndsInLineComment (scan none text) := by
  intro he
  obtain ⟨r, hr, hk⟩ := he
  obtain ⟨front, hf⟩ := List.getLast?_eq_some_iff.mp hr
  have hn := scanned_scan none text
  have hj := join_scan none text
  rw [hf] at hn hj
  obtain ⟨shape, -, -, -⟩ := scanned_region_iff.mp hn.drop
  obtain ⟨cs, c, hc⟩ := (List.eq_nil_or_concat r.text).resolve_left shape.text_ne_nil
  rw [List.concat_eq_append] at hc
  have hl : c = '\n' := h.lineStart c (by simp [← hj, Lexeme.text, hc])
  have ht : r.terminated := h.closed r (by simp [hf])
  exact shape.getLast?_ne_newline ht (by simp [hc, hl])

theorem scan_append (h : Clear text) (hc : isInert c) (more : List Char) :
    scan none (text ++ c :: more) = scan none text ++ .code c :: scan none more :=
  scan_append_inert hc h.closed fun he => absurd he h.not_endsInLineComment

/-- What follows a clear line start and an inert character is clear where the whole is. -/
theorem of_append (h : Clear text) (hc : isInert c) (hw : Clear (text ++ c :: more)) :
    Clear more := by
  refine ⟨fun d hd => hw.lineStart d ?_, ?_⟩
  · cases more with
    | nil => cases hd
    | cons e es => simpa [List.getLast?_append, List.getLast?_cons_cons] using hd
  · have hcl := hw.closed
    rw [h.scan_append hc] at hcl
    exact fun r hr => hcl r (by simp [hr])

theorem of_cons_blank (hc : isBlank c) (h : Clear (c :: text)) : Clear text := by
  refine ⟨fun d hd => h.lineStart d ?_, ?_⟩
  · cases text with
    | nil => cases hd
    | cons e es => simpa [List.getLast?_cons_cons] using hd
  · have hcl := h.closed
    rwa [scan_cons_inert (isInert_of_isBlank hc), closed_code_iff] at hcl

theorem of_append_blanks {blanks : List Char} (hb : ∀ c ∈ blanks, isBlank c)
    (h : Clear (blanks ++ text)) : Clear text := by
  induction blanks with
  | nil => exact h
  | cons c cs ih =>
    exact ih (fun d hd => hb d (List.mem_cons_of_mem c hd))
      (h.of_cons_blank (hb c (List.mem_cons_self ..)))

end Clear

end NamedSql
