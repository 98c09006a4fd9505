import Mathlib.Data.List.Sort
import NamedSql.Proofs.Pieces
import NamedSql.Proofs.Trim

namespace NamedSql

/-- The character `c` of the text begins at byte `k`. -/
def CharAt (text : List Char) (k : Nat) (c : Char) : Prop :=
  ∃ before after, text = before ++ c :: after ∧ k = byteLength before

/-- The span holds a part of the text that neither begins nor ends with a blank. -/
def TrimmedSpan (text : List Char) (span : Nat × Nat) : Prop :=
  ∃ before chars after, text = before ++ (chars ++ after) ∧ span.1 = byteLength before ∧
    span.2 = byteLength before + byteLength chars ∧ chars ≠ [] ∧
    (∀ c ∈ chars.head?, isBlank c = false) ∧ ∀ c ∈ chars.getLast?, isBlank c = false

/-- The byte `k` lies in the span. -/
def InSpan (k : Nat) (span : Nat × Nat) : Prop :=
  span.1 ≤ k ∧ k < span.2

/-- A semicolon of the code stands after the first span and before the second. -/
def Between (text : List Char) (s t : Nat × Nat) : Prop :=
  ∃ k, TopSemicolon text k ∧ s.2 ≤ k ∧ k < t.1

/-- The spans split the text at exactly the semicolons of its code. -/
structure IsSplit (text : List Char) (spans : List (Nat × Nat)) : Prop where
  trimmed : ∀ s ∈ spans, TrimmedSpan text s
  ordered : spans.Pairwise fun s t => s.2 ≤ t.1
  outside : ∀ k c, CharAt text k c → (∀ s ∈ spans, ¬ InSpan k s) → isBlank c ∨ TopSemicolon text k
  inside : ∀ s ∈ spans, ∀ k, TopSemicolon text k → ¬ InSpan k s
  between : spans.IsChain (Between text)

namespace TrimmedSpan

variable {text : List Char} {s : Nat × Nat}

theorem lt (h : TrimmedSpan text s) : s.1 < s.2 := by
  obtain ⟨before, chars, after, -, h₁, h₂, hne, -, -⟩ := h
  have := byteLength_pos hne
  omega

/-- The first character of the span is not blank. -/
theorem first (h : TrimmedSpan text s) : ∃ c, CharAt text s.1 c ∧ isBlank c = false := by
  obtain ⟨before, chars, after, ht, h₁, -, hne, hb, -⟩ := h
  obtain ⟨c, cs, rfl⟩ := List.exists_cons_of_ne_nil hne
  exact ⟨c, ⟨before, cs ++ after, ht, h₁⟩, hb c rfl⟩

/-- The span ends just after a character that is not blank. -/
theorem last (h : TrimmedSpan text s) :
    ∃ c k, CharAt text k c ∧ isBlank c = false ∧ s.1 ≤ k ∧ s.2 = k + c.utf8Size := by
  obtain ⟨before, chars, after, ht, h₁, h₂, hne, -, hb⟩ := h
  obtain ⟨cs, c, rfl⟩ := List.eq_nil_or_concat chars |>.resolve_left hne
  refine ⟨c, byteLength (before ++ cs), ⟨before ++ cs, after, by simp [ht], rfl⟩,
    hb c (by simp), ?_⟩
  simp at h₂ ⊢
  omega

/-- A span does not end inside a character. -/
theorem le_of_charAt (h : TrimmedSpan text s) {k : Nat} {c : Char} (hc : CharAt text k c)
    (hk : k < s.2) : k + c.utf8Size ≤ s.2 := by
  obtain ⟨before, chars, after, ht, -, h₂, -⟩ := h
  obtain ⟨front, back, hf, rfl⟩ := hc
  have hcut : front ++ (c :: back) = (before ++ chars) ++ after := by
    rw [← hf, ht, List.append_assoc]
  obtain ⟨es, he, hb⟩ := append_of_byteLength_le hcut (by rw [byteLength_append]; omega)
  have hlen := congrArg byteLength he
  simp only [byteLength_append] at hlen
  cases es with
  | nil => simp at hlen; omega
  | cons d es =>
    cases hb
    simp at hlen
    omega

end TrimmedSpan

namespace IsSplit

variable {text : List Char} {S T : List (Nat × Nat)}

/-- A semicolon of the code stands between any two spans, not only between neighbours. -/
theorem pairwise_between (h : IsSplit text S) : S.Pairwise (Between text) := by
  have hlt : ∀ s ∈ S, s.1 < s.2 := fun s hs => (h.trimmed s hs).lt
  have hc := h.between
  clear h
  induction S with
  | nil => exact .nil
  | cons s S ih =>
    obtain ⟨hs, hS⟩ := List.isChain_cons.mp hc
    have hp := ih (fun t ht => hlt t (List.mem_cons_of_mem s ht)) hS
    refine List.pairwise_cons.mpr ⟨?_, hp⟩
    intro t ht
    cases S with
    | nil => simp at ht
    | cons u S =>
      obtain ⟨k, hk, hl, hr⟩ := hs u rfl
      rcases List.mem_cons.mp ht with rfl | ht
      · exact ⟨k, hk, hl, hr⟩
      · obtain ⟨m, -, hm, hm'⟩ := (List.pairwise_cons.mp hp).1 t ht
        have := hlt u (by simp)
        exact ⟨k, hk, hl, by omega⟩

/-- A character that is not blank and lies in a span of one split lies in a span of the other. -/
theorem exists_inSpan (hS : IsSplit text S) (hT : IsSplit text T) {s : Nat × Nat} (hs : s ∈ S)
    {k : Nat} {c : Char} (hc : CharAt text k c) (hb : isBlank c = false) (hk : InSpan k s) :
    ∃ t ∈ T, InSpan k t := by
  by_contra hn
  rcases hT.outside k c hc (fun t ht hi => hn ⟨t, ht, hi⟩) with h | h
  · simp [hb] at h
  · exact hS.inside s hs k h hk

/-- Two spans of a split do not meet the same span of another, for a semicolon is between them. -/
theorem eq_of_meet (hS : IsSplit text S) (hT : IsSplit text T) {s s' t : Nat × Nat} (hs : s ∈ S)
    (hs' : s' ∈ S) (ht : t ∈ T) {k k' : Nat} (hk : InSpan k s) (hkt : InSpan k t)
    (hk' : InSpan k' s') (hkt' : InSpan k' t) : s = s' := by
  by_contra hne
  have : Std.Symm fun a b => Between text a b ∨ Between text b a := ⟨fun _ _ h => h.symm⟩
  have hp : S.Pairwise fun a b => Between text a b ∨ Between text b a :=
    hS.pairwise_between.imp Or.inl
  have hor := hp.forall hs hs' hne
  simp only [InSpan] at hk hkt hk' hkt'
  rcases hor with ⟨m, hm, hl, hr⟩ | ⟨m, hm, hl, hr⟩
  · exact hT.inside t ht m hm ⟨by omega, by omega⟩
  · exact hT.inside t ht m hm ⟨by omega, by omega⟩

theorem within (hS : IsSplit text S) (hT : IsSplit text T) {s t : Nat × Nat} (hs : s ∈ S)
    (ht : t ∈ T) {k : Nat} (hk : InSpan k s) (hkt : InSpan k t) : t.1 ≤ s.1 ∧ s.2 ≤ t.2 := by
  have hts := hS.trimmed s hs
  obtain ⟨c, hc, hb⟩ := hts.first
  obtain ⟨d, m, hd, hbd, hm, he⟩ := hts.last
  have hpos := d.utf8Size_pos
  have hin : InSpan s.1 s := ⟨Nat.le_refl _, hts.lt⟩
  have hin' : InSpan m s := ⟨hm, by omega⟩
  obtain ⟨t₁, ht₁, hi₁⟩ := hS.exists_inSpan hT hs hc hb hin
  obtain ⟨t₂, ht₂, hi₂⟩ := hS.exists_inSpan hT hs hd hbd hin'
  obtain rfl := hT.eq_of_meet hS ht₁ ht hs hi₁ hin hkt hk
  obtain rfl := hT.eq_of_meet hS ht₂ ht hs hi₂ hin' hkt hk
  exact ⟨hi₁.1, he ▸ (hT.trimmed _ ht).le_of_charAt hd hi₂.2⟩

theorem subset (hS : IsSplit text S) (hT : IsSplit text T) : S ⊆ T := by
  intro s hs
  have hlt := (hS.trimmed s hs).lt
  obtain ⟨c, hc, hb⟩ := (hS.trimmed s hs).first
  have hin : InSpan s.1 s := ⟨Nat.le_refl _, hlt⟩
  obtain ⟨t, ht, hi⟩ := hS.exists_inSpan hT hs hc hb hin
  obtain ⟨h₁, h₂⟩ := hS.within hT hs ht hin hi
  obtain ⟨h₃, h₄⟩ := hT.within hS ht hs hi hin
  have : s = t := Prod.ext (by omega) (by omega)
  exact this ▸ ht

theorem pairwise_lt (h : IsSplit text S) : S.Pairwise fun s t => s.1 < t.1 := by
  refine h.ordered.imp_of_mem fun {s t} hs _ hle => ?_
  have := (h.trimmed s hs).lt
  omega

theorem unique (hS : IsSplit text S) (hT : IsSplit text T) : S = T := by
  have : Std.Irrefl fun s t : Nat × Nat => s.1 < t.1 := ⟨fun s => Nat.lt_irrefl s.1⟩
  have : Std.Antisymm fun s t : Nat × Nat => s.1 < t.1 :=
    ⟨fun s t h h' => absurd h (Nat.lt_asymm h')⟩
  exact hS.pairwise_lt.eq_of_mem_iff hT.pairwise_lt fun s =>
    ⟨fun h => hS.subset hT h, fun h => hT.subset hS h⟩

end IsSplit

section Located

variable {start : Position} {ps : List (List Char)} {e : Excerpt}

@[simp] theorem byte_after_semicolon (start : Position) (piece : List Char) :
    (start.after (piece ++ [';'])).byte = start.byte + byteLength piece + 1 := by
  rw [Position.byte_after, byteLength_append, ← Nat.add_assoc]
  rfl

/-- A located piece is where the text says it is. -/
theorem eq_append_of_mem_locate (h : e ∈ Excerpt.locate start ps) :
    ∃ before after, joinPieces ps = before ++ (e.chars ++ after) ∧
      e.start = start.after before := by
  induction ps generalizing start with
  | nil => simp [Excerpt.locate] at h
  | cons piece ps ih =>
    rcases List.mem_cons.mp h with rfl | h
    · cases ps with
      | nil => exact ⟨[], [], by simp [joinPieces], rfl⟩
      | cons next rest => exact ⟨[], ';' :: joinPieces (next :: rest), rfl, rfl⟩
    · cases ps with
      | nil => simp [Excerpt.locate] at h
      | cons next rest =>
        obtain ⟨before, after, hj, hs⟩ := ih h
        refine ⟨piece ++ [';'] ++ before, after, by simp [joinPieces, hj], ?_⟩
        rw [hs, ← Position.after_append]

theorem le_of_mem_locate (h : e ∈ Excerpt.locate start ps) : start.byte ≤ e.start.byte := by
  obtain ⟨before, -, -, hs⟩ := eq_append_of_mem_locate h
  rw [hs, Position.byte_after]
  omega

/-- A joint lies between any two located pieces. -/
theorem pairwise_locate (start : Position) (ps : List (List Char)) :
    (Excerpt.locate start ps).Pairwise fun e f =>
      ∃ k ∈ joints start.byte ps, e.stop.byte ≤ k ∧ k < f.start.byte := by
  induction ps generalizing start with
  | nil => exact .nil
  | cons piece ps ih =>
    cases ps with
    | nil => exact List.pairwise_singleton _ _
    | cons next rest =>
      refine List.pairwise_cons.mpr ⟨?_, (ih _).imp ?_⟩
      · intro f hf
        refine ⟨_, List.mem_cons_self .., Nat.le_refl _, ?_⟩
        have := le_of_mem_locate hf
        rw [byte_after_semicolon] at this
        omega
      · intro e f h
        obtain ⟨k, hk, hl, hr⟩ := h
        rw [byte_after_semicolon] at hk
        exact ⟨k, List.mem_cons_of_mem _ hk, hl, hr⟩

/-- No joint lies in a located piece. -/
theorem not_mem_joints_of_mem_locate {k : Nat} (h : e ∈ Excerpt.locate start ps)
    (hl : e.start.byte ≤ k) (hr : k < e.stop.byte) : k ∉ joints start.byte ps := by
  intro hk
  induction ps generalizing start with
  | nil => simp [Excerpt.locate] at h
  | cons piece ps ih =>
    cases ps with
    | nil => simp [joints] at hk
    | cons next rest =>
      have hstop : (start.after piece).byte = start.byte + byteLength piece := rfl
      rw [joints, ← byte_after_semicolon] at hk
      rcases List.mem_cons.mp h with rfl | h
      · simp only [Excerpt.stop] at hl hr
        rcases List.mem_cons.mp hk with rfl | hk
        · omega
        · have := le_of_mem_joints hk
          rw [byte_after_semicolon] at this
          omega
      · rcases List.mem_cons.mp hk with rfl | hk
        · have := le_of_mem_locate h
          rw [byte_after_semicolon] at this
          omega
        · exact ih h hk

/-- Each character stands at a joint or in a located piece. -/
theorem charAt_joinPieces {before after : List Char} {c : Char} (hps : ps ≠ [])
    (h : joinPieces ps = before ++ c :: after) :
    start.byte + byteLength before ∈ joints start.byte ps ∨
      ∃ e ∈ Excerpt.locate start ps, ∃ front back, e.chars = front ++ c :: back ∧
        start.byte + byteLength before = e.start.byte + byteLength front := by
  induction ps generalizing start before with
  | nil => exact absurd rfl hps
  | cons piece ps ih =>
    cases ps with
    | nil => exact .inr ⟨⟨start, piece⟩, List.mem_singleton.mpr rfl, before, after, h, rfl⟩
    | cons next rest =>
      rcases List.append_eq_append_iff.mp (h : piece ++ ';' :: joinPieces _ = _) with
        ⟨es, rfl, hd⟩ | ⟨es, rfl, hd⟩
      · cases es with
        | nil => exact .inl (by simp [joints])
        | cons d es =>
          obtain ⟨rfl, hj⟩ := List.cons.inj hd
          have hb : start.byte + byteLength (piece ++ ';' :: es) =
              (start.after (piece ++ [';'])).byte + byteLength es := by
            rw [← List.singleton_append, ← List.append_assoc, byteLength_append,
              Position.byte_after, Nat.add_assoc]
          have hi := @ih (start.after (piece ++ [';'])) es (List.cons_ne_nil _ _) hj
          rw [hb, joints, ← byte_after_semicolon]
          rcases hi with hk | ⟨e, he, front, back, hc, hk⟩
          · exact .inl (List.mem_cons_of_mem _ hk)
          · exact .inr ⟨e, List.mem_cons_of_mem _ he, front, back, hc, hk⟩
      · cases es with
        | nil => exact .inl (by simp [joints])
        | cons d es =>
          cases hd
          exact .inr ⟨⟨start, before ++ c :: es⟩, List.mem_cons_self .., before, es, rfl, rfl⟩

/-- Trimming a located piece takes blanks from its two ends only. -/
theorem trim_excerpt (e : Excerpt) :
    ∃ front back, e.chars = front ++ (e.trim.chars ++ back) ∧ (∀ c ∈ front, isBlank c) ∧
      (∀ c ∈ back, isBlank c) ∧ e.trim.start = e.start.after front := by
  obtain ⟨back, hc, hb⟩ := append_trim e.chars
  exact ⟨_, back, hc, isBlank_of_mem_takeWhile, hb, rfl⟩

theorem trimmedSpan_of_mem_locate {text : List Char} (ht : joinPieces ps = text)
    (h : e ∈ Excerpt.locate .origin ps) (hne : e.trim.chars ≠ []) :
    TrimmedSpan text e.trim.span := by
  obtain ⟨before, after, hj, hs⟩ := eq_append_of_mem_locate h
  obtain ⟨front, back, hc, -, -, hstart⟩ := trim_excerpt e
  refine ⟨before ++ front, e.trim.chars, back ++ after, ?_, ?_, ?_, hne, ?_, ?_⟩
  · rw [← ht, hj, hc]
    simp
  · simp [Excerpt.span, hstart, hs, Position.origin]
  · simp [Excerpt.span, Excerpt.stop, hstart, hs, Position.origin]
  · exact fun c hc => isBlank_head?_trim hc
  · exact fun c hc => isBlank_getLast?_trim hc

theorem trim_span_within (e : Excerpt) :
    e.start.byte ≤ e.trim.span.1 ∧ e.trim.span.2 ≤ e.stop.byte := by
  obtain ⟨front, back, hc, -, -, hstart⟩ := trim_excerpt e
  have := congrArg byteLength hc
  simp only [byteLength_append] at this
  simp only [Excerpt.span, Excerpt.stop, hstart, Position.byte_after]
  omega

/-- A character of a located piece that trimming drops is blank. -/
theorem isBlank_of_not_inSpan_trim {us vs : List Char} {c : Char} (h : e.chars = us ++ c :: vs)
    (hn : e.trim.chars ≠ [] → ¬ InSpan (e.start.byte + byteLength us) e.trim.span) :
    isBlank c := by
  obtain ⟨front, back, hc, hf, hb, hstart⟩ := trim_excerpt e
  -- Behind the blank front the character is in the trimmed text, which `hn` excludes, or after it.
  have behind : ∀ es, us = front ++ es → e.trim.chars ++ back = es ++ c :: vs → isBlank c := by
    rintro es rfl hd
    rcases List.append_eq_append_iff.mp hd with ⟨fs, rfl, hr⟩ | ⟨fs, ht, hr⟩
    · exact hb c (by rw [hr]; simp)
    · cases fs with
      | nil => exact hb c (by rw [← List.nil_append back, ← hr]; simp)
      | cons d fs =>
        cases hr
        refine absurd ?_ (hn (by rw [ht]; simp))
        have := c.utf8Size_pos
        simp only [InSpan, Excerpt.span, Excerpt.stop, hstart, ht, Position.byte_after,
          byteLength_append, byteLength_cons]
        omega
  rcases List.append_eq_append_iff.mp (hc.symm.trans h) with ⟨es, hu, hd⟩ | ⟨es, rfl, hd⟩
  · exact behind es hu hd
  · cases es with
    | nil => exact behind [] (by simp) (by simpa using hd.symm)
    | cons d es =>
      cases hd
      exact hf c (by simp)

end Located

theorem mem_statementSpans_iff {script : String} {s : Nat × Nat} :
    s ∈ statementSpans script ↔
      ∃ e ∈ Excerpt.locate .origin (pieces (Segment.ofText script.toList)),
        e.trim.chars ≠ [] ∧ s = e.trim.span := by
  simp only [statementSpans, Excerpt.ofScript, List.mem_map, List.mem_filter]
  constructor
  · intro h
    obtain ⟨_, ⟨⟨e, he, rfl⟩, hne⟩, rfl⟩ := h
    exact ⟨e, he, by simpa using hne, rfl⟩
  · intro h
    obtain ⟨e, he, hne, rfl⟩ := h
    exact ⟨_, ⟨⟨e, he, rfl⟩, by simpa using hne⟩, rfl⟩

theorem pairwise_statementSpans (script : String) :
    (statementSpans script).Pairwise (Between script.toList) := by
  rw [statementSpans, Excerpt.ofScript]
  refine List.pairwise_map.mpr (List.Pairwise.filter _ (List.pairwise_map.mpr ?_))
  refine (pairwise_locate .origin _).imp ?_
  intro e f h
  obtain ⟨k, hk, hl, hr⟩ := h
  have he := (trim_span_within e).2
  have hf := (trim_span_within f).1
  exact ⟨k, topSemicolon_iff_mem_joints.mpr hk, by omega, by omega⟩

/-- The spans of the statements split the script at the semicolons of its code. -/
theorem isSplit_statementSpans (script : String) :
    IsSplit script.toList (statementSpans script) := by
  have ht : joinPieces (pieces (Segment.ofText script.toList)) = script.toList := by
    rw [joinPieces_pieces, Segment.join_ofText]
  have hp := pairwise_statementSpans script
  refine ⟨?_, hp.imp fun ⟨k, _, hl, hr⟩ => by omega, ?_, ?_, hp.isChain⟩
  · intro s hs
    obtain ⟨e, he, hne, rfl⟩ := mem_statementSpans_iff.mp hs
    exact trimmedSpan_of_mem_locate ht he hne
  · intro k c hc hn
    obtain ⟨before, after, hb, rfl⟩ := hc
    have hcase : Position.origin.byte + byteLength before ∈ joints Position.origin.byte _ ∨ _ :=
      charAt_joinPieces (pieces_ne_nil _) (ht.trans hb)
    rcases hcase with hj | ⟨e, he, us, vs, hu, hk⟩
    · exact .inr (topSemicolon_iff_mem_joints.mpr (by simpa [Position.origin] using hj))
    · refine .inl (isBlank_of_not_inSpan_trim hu fun hne hi => ?_)
      rw [← hk] at hi
      exact hn _ (mem_statementSpans_iff.mpr ⟨e, he, hne, rfl⟩)
        (by simpa [Position.origin] using hi)
  · intro s hs k hk hi
    obtain ⟨e, he, -, rfl⟩ := mem_statementSpans_iff.mp hs
    have hw := trim_span_within e
    simp only [InSpan] at hi
    exact not_mem_joints_of_mem_locate he (by omega) (by omega)
      (topSemicolon_iff_mem_joints.mp hk)

/-- The spans of the statements are the only split of the script. -/
theorem statementSpans_eq_iff (script : String) (spans : List (Nat × Nat)) :
    statementSpans script = spans ↔ IsSplit script.toList spans :=
  ⟨fun h => h ▸ isSplit_statementSpans script, fun h => (isSplit_statementSpans script).unique h⟩

end NamedSql
