import NamedSql.Proofs.CommentRemoval
import NamedSql.Proofs.SplitJoin

namespace NamedSql

namespace Region

/-- A line comment or an open region has no closing delimiter that a blank could follow. -/
def Extends (r : Region) : Prop :=
  r.kind = .lineComment ∨ r.terminated = false

def withText (r : Region) (chars : List Char) : Region :=
  { r with text := chars }

@[simp] theorem withText_text (r : Region) (chars : List Char) : (r.withText chars).text = chars :=
  rfl

@[simp] theorem withText_kind (r : Region) (chars : List Char) : (r.withText chars).kind = r.kind :=
  rfl

@[simp] theorem withText_terminated (r : Region) (chars : List Char) :
    (r.withText chars).terminated = r.terminated := rfl

/-- Such a region is one still without a blank that it ends with. -/
theorem WellFormed.dropBlank {r : Region} {chars : List Char} {c : Char} (h : r.WellFormed)
    (he : r.Extends) (hc : isBlank c) (ht : r.text = chars ++ [c]) :
    (r.withText chars).WellFormed := by
  obtain ⟨inner, hi, hcl⟩ := h.closes
  -- The blank is not in the opening delimiter, which ends in another character.
  obtain ⟨body, rfl, hb⟩ : ∃ body, inner = body ++ [c] ∧ chars = r.kind.opening ++ body := by
    rcases List.eq_nil_or_concat inner with rfl | ⟨body, d, rfl⟩
    · rw [List.append_nil] at hi
      have hl := r.kind.isBlank_getLast?_opening c (by simp [← hi, ht])
      simp [hc] at hl
    · rw [ht, List.concat_eq_append, ← List.append_assoc] at hi
      obtain ⟨hb, hd⟩ := List.append_inj' hi rfl
      exact ⟨body, by rw [List.concat_eq_append, hd], hb⟩
  refine ⟨h.tagged, body, hb, ?_⟩
  cases hr : r.terminated with
  | true =>
    have hk : r.kind = .lineComment := by simpa [Extends, hr] using he
    rw [hr, hk, if_pos rfl, Kind.close?_lineComment_iff] at hcl
    rw [withText_kind, withText_terminated, hr, hk, if_pos rfl, Kind.close?_lineComment_iff]
    intro d hd
    exact hcl d (List.mem_append_left _ hd)
  | false =>
    have hk := h.kind_ne_lineComment hr
    have hrel : r.kind.Released [c] :=
      Kind.released_of_inert hk (by simpa using isInert_of_isBlank hc)
    rw [hr, if_neg Bool.false_ne_true] at hcl
    rw [withText_kind, withText_terminated, hr, if_neg Bool.false_ne_true]
    exact Kind.close?_eq_none_of_append hk hrel hcl

end Region

namespace Lexeme

/-- How a scan takes up one more blank: as code, or into the region that its text ends in. -/
inductive TakesUp (c : Char) : List Lexeme → List Lexeme → Prop
  | code (ls : List Lexeme) : TakesUp c ls (ls ++ [.code c])
  | region (front : List Lexeme) {r : Region} {chars : List Char} (last : r.Extends)
      (ends : r.text = chars ++ [c]) :
      TakesUp c (front ++ [.region (r.withText chars)]) (front ++ [.region r])

theorem Scanned.dropBlank {before : Option Char} {front : List Lexeme} {r : Region}
    {chars : List Char} {c : Char} (h : Scanned before (front ++ [.region r])) (he : r.Extends)
    (hc : isBlank c) (ht : r.text = chars ++ [c]) :
    Scanned before (front ++ [.region (r.withText chars)]) := by
  obtain ⟨shape, -, -, -⟩ := scanned_region_iff.mp h.drop
  have shape' := shape.dropBlank he hc ht
  obtain ⟨d, ds, hd, -, hr⟩ := shape'.exists_text_cons
  rw [Region.withText_text] at hd
  refine h.replace_end ?_ ?_ fun b hb => ?_
  · simp [text, ht, hd]
  · simpa [text, ht, hd] using hr
  · obtain ⟨-, fits, released, -⟩ := scanned_region_iff.mp hb
    exact .region shape' fits released .nil

theorem takesUp_scan {c : Char} (hc : isBlank c) (chars : List Char) :
    TakesUp c (scan none chars) (scan none (chars ++ [c])) := by
  have hs := scanned_scan none (chars ++ [c])
  have hj := join_scan none (chars ++ [c])
  generalize scan none (chars ++ [c]) = new at hs hj
  rcases List.eq_nil_or_concat new with rfl | ⟨front, l, rfl⟩
  · simp at hj
  rw [List.concat_eq_append] at hs hj ⊢
  rw [join_append, join_cons, join_nil, List.append_nil] at hj
  cases l with
  | code d =>
    obtain ⟨rfl, hd⟩ := List.append_inj' hj rfl
    obtain rfl : d = c := by simpa [text] using hd
    obtain ⟨hf, -, -, -⟩ := (scanned_append_inert_iff (isInert_of_isBlank hc)).mp hs
    rw [hf.scan_join]
    exact .code front
  | region r =>
    obtain ⟨shape, -, -, -⟩ := scanned_region_iff.mp hs.drop
    obtain ⟨s, d, hr⟩ := (List.eq_nil_or_concat r.text).resolve_left shape.text_ne_nil
    rw [List.concat_eq_append] at hr
    rw [text, hr, ← List.append_assoc] at hj
    obtain ⟨rfl, hd⟩ := List.append_inj' hj rfl
    obtain rfl : d = c := by simpa using hd
    -- A region with a closing delimiter ends in that and in no blank.
    have he : r.Extends := by
      by_contra hn
      simp only [Region.Extends, not_or, Bool.not_eq_false] at hn
      have := shape.isBlank_getLast?_text hn.2 hn.1 d (by simp [hr])
      simp [hc] at this
    have hold := (hs.dropBlank he hc hr).scan_join
    simp only [join_append, join_cons, join_nil, List.append_nil, text, Region.withText_text]
      at hold
    rw [hold]
    exact .region front he hr

variable {α : Type*} {f : List Lexeme → α}

theorem eq_of_blank_front (front : ∀ c ls, isBlank c → f (.code c :: ls) = f ls)
    {blanks : List Char} (hb : ∀ c ∈ blanks, isBlank c) (chars : List Char) :
    f (scan none (blanks ++ chars)) = f (scan none chars) := by
  induction blanks with
  | nil => rfl
  | cons c cs ih =>
    have hc := hb c (List.mem_cons_self ..)
    rw [List.cons_append, scan_cons_inert (isInert_of_isBlank hc), front c _ hc]
    exact ih fun d hd => hb d (List.mem_cons_of_mem c hd)

theorem eq_of_blank_back (back : ∀ c old new, isBlank c → TakesUp c old new → f new = f old)
    {blanks : List Char} (hb : ∀ c ∈ blanks, isBlank c) (chars : List Char) :
    f (scan none (chars ++ blanks)) = f (scan none chars) := by
  induction blanks generalizing chars with
  | nil => rw [List.append_nil]
  | cons c cs ih =>
    have hc := hb c (List.mem_cons_self ..)
    rw [← List.singleton_append, ← List.append_assoc,
      ih (fun d hd => hb d (List.mem_cons_of_mem c hd))]
    exact back c _ _ hc (takesUp_scan hc chars)

/-- What sees no blank at the two ends of a scan is the same for the trimmed text. -/
theorem scan_trim_eq (front : ∀ c ls, isBlank c → f (.code c :: ls) = f ls)
    (back : ∀ c old new, isBlank c → TakesUp c old new → f new = f old) (chars : List Char) :
    f (scan none (trim chars)) = f (scan none chars) := by
  obtain ⟨blanks, hj, hb⟩ := append_trim chars
  calc f (scan none (trim chars)) = f (scan none (trim chars ++ blanks)) :=
        (eq_of_blank_back back hb _).symm
    _ = f (scan none (chars.takeWhile isBlank ++ (trim chars ++ blanks))) :=
        (eq_of_blank_front front isBlank_of_mem_takeWhile _).symm
    _ = f (scan none chars) := by rw [← hj]

theorem TakesUp.trim_join_strip {c : Char} {old new : List Lexeme} (h : TakesUp c old new)
    (hc : isBlank c) : trim (join (strip new)) = trim (join (strip old)) := by
  have hb : ∀ d ∈ [c], isBlank d := by simpa using hc
  cases h with
  | code ls => simp [strip_append, text, trim_append_of_all hb]
  | @region front r chars _ ends =>
    rw [strip_append, strip_append, join_append, join_append]
    rcases r.kind.comment_cases with hk | hk | hk
    · simp [strip_lineComment, hk]
    · simp [strip_blockComment, hk]
    · simp [strip_literal, hk, text, ends, ← List.append_assoc, trim_append_of_all hb]

theorem TakesUp.statementsOf_pieces {c : Char} {old new : List Lexeme} (h : TakesUp c old new)
    (hc : isBlank c) : statementsOf (pieces new) = statementsOf (pieces old) := by
  cases h with
  | code => exact statementsOf_concat_blank _ hc
  | @region front r chars _ ends =>
    obtain ⟨before, piece, -, hq⟩ := pieces_concat front
    rw [hq _ (by simp), hq _ (by simp), text, text, ends, ← List.append_assoc]
    exact statementsOf_last_blank hc before (piece ++ chars)

@[simp] theorem closed_append_iff {as bs : List Lexeme} :
    Closed (as ++ bs) ↔ Closed as ∧ Closed bs := by
  simp only [Closed, List.mem_append, or_imp, forall_and]

theorem TakesUp.closed_iff {c : Char} {old new : List Lexeme} (h : TakesUp c old new) :
    Closed new ↔ Closed old := by
  cases h <;> simp

end Lexeme

/-- Blanks at the ends of a text leave no trace when its comments are removed. -/
theorem stripComments_trim (chars : List Char) :
    stripComments (trim chars) = stripComments chars := by
  rw [stripComments_eq, stripComments_eq]
  refine Lexeme.scan_trim_eq (f := fun ls => trim (Lexeme.join (Lexeme.strip ls))) ?_ ?_ chars
  · intro c ls hc
    exact trim_cons_of_blank hc _
  · intro c old new hc h
    exact h.trim_join_strip hc

theorem statementTexts_trim (chars : List Char) :
    statementTexts (trim chars) = statementTexts chars := by
  refine Lexeme.scan_trim_eq (f := fun ls => statementsOf (Lexeme.pieces ls)) ?_ ?_ chars
  · intro c ls hc
    rw [Lexeme.pieces, extendCode, if_neg (ne_of_isBlank hc rfl)]
    exact statementsOf_extendPiece_blank hc (Lexeme.pieces_ne_nil ls)
  · intro c old new hc h
    exact h.statementsOf_pieces hc

theorem closed_scan_trim_iff (chars : List Char) :
    Lexeme.Closed (Lexeme.scan none (trim chars)) ↔ Lexeme.Closed (Lexeme.scan none chars) := by
  refine iff_of_eq (Lexeme.scan_trim_eq (f := Lexeme.Closed) ?_ ?_ chars)
  · intro c ls _
    exact propext Lexeme.closed_code_iff
  · intro c old new _ h
    exact propext h.closed_iff

end NamedSql
