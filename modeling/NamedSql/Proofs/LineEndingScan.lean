import NamedSql.Proofs.CommentPolicy
import NamedSql.Proofs.LineEndings

namespace NamedSql.Lexeme

/-- The first list has carriage returns in front of newlines where the second has none. A line
comment may hold the one in front of the newline that ends it. -/
inductive Returned : List Lexeme → List Lexeme → Prop
  | nil : Returned [] []
  | code {c : Char} {new old : List Lexeme} (ne : c ≠ '\r') (rest : Returned new old) :
      Returned (.code c :: new) (.code c :: old)
  | newline {new old : List Lexeme} (rest : Returned new old) :
      Returned (.code '\r' :: .code '\n' :: new) (.code '\n' :: old)
  | region {r s : Region} {new old : List Lexeme} (kind : r.kind = s.kind)
      (terminated : r.terminated = s.terminated) (text : withoutReturns r.text = s.text)
      (rest : Returned new old) : Returned (.region r :: new) (.region s :: old)

namespace Returned
variable {new old : List Lexeme}

theorem withoutReturns_join (h : Returned new old) : withoutReturns (join new) = join old := by
  induction h with
  | nil => rfl
  | code ne _ ih =>
    rw [join_cons, join_cons, withoutReturns_append, ih, text,
      withoutReturns_eq_self (by simpa using Ne.symm ne)]
  | newline _ ih => simpa [text, withoutReturns] using ih
  | region _ _ htext _ ih => rw [join_cons, join_cons, withoutReturns_append, ih, text, text, htext]

theorem closed_iff (h : Returned new old) : Closed new ↔ Closed old := by
  induction h with
  | nil => exact Iff.rfl
  | code _ _ ih => simpa using ih
  | newline _ ih => simpa using ih
  | region _ terminated _ _ ih => rw [closed_region_iff, closed_region_iff, terminated, ih]

theorem strip (h : Returned new old) : Returned (Lexeme.strip new) (Lexeme.strip old) := by
  induction h with
  | nil => exact .nil
  | code ne _ ih => exact .code ne ih
  | newline _ ih => exact .newline ih
  | @region r s _ _ kind terminated text _ ih =>
    rcases s.kind.comment_cases with hk | hk | hk
    · rwa [strip_lineComment hk, strip_lineComment (kind.trans hk)]
    · rw [strip_blockComment hk, strip_blockComment (kind.trans hk)]
      exact .code (by decide) ih
    · rw [strip_literal hk, strip_literal (kind ▸ hk)]
      exact .region kind terminated text ih

theorem trimStart (h : Returned new old) :
    Returned (Lexeme.trimStart new) (Lexeme.trimStart old) := by
  induction h with
  | nil => exact .nil
  | code ne rest ih =>
    rw [Lexeme.trimStart, Lexeme.trimStart]
    split
    · exact ih
    · exact .code ne rest
  | newline _ ih => exact ih
  | region kind terminated text rest => exact .region kind terminated text rest

theorem trimOpen {r s : Region} (ht : r.terminated = s.terminated)
    (h : withoutReturns r.text = s.text) : withoutReturns r.trimOpen.text = s.trimOpen.text := by
  cases hs : s.terminated with
  | true => rw [Region.trimOpen_of_terminated hs, Region.trimOpen_of_terminated (ht.trans hs), h]
  | false =>
    rw [Region.trimOpen_text_of_open hs, Region.trimOpen_text_of_open (ht.trans hs),
      withoutReturns_trimEnd, h]

theorem isEmpty_eq (h : Returned new old) : new.isEmpty = old.isEmpty := by
  cases h <;> rfl

theorem trimEnd (h : Returned new old) : Returned (Lexeme.trimEnd new) (Lexeme.trimEnd old) := by
  induction h with
  | nil => exact .nil
  | code ne _ ih =>
    rw [Lexeme.trimEnd, Lexeme.trimEnd, ih.isEmpty_eq]
    split
    · exact .nil
    · exact .code ne ih
  | @newline new old _ ih =>
    rw [Lexeme.trimEnd, Lexeme.trimEnd, Lexeme.trimEnd, ih.isEmpty_eq]
    cases (Lexeme.trimEnd old).isEmpty with
    | true => exact .nil
    | false => exact .newline ih
  | @region r s _ _ kind terminated text _ ih =>
    refine .region ?_ ?_ (trimOpen terminated text) ih
    · rw [Region.trimOpen_kind, Region.trimOpen_kind, kind]
    · rw [Region.trimOpen_terminated, Region.trimOpen_terminated, terminated]

theorem sameTokens (h : Returned new old) : SameTokens new old := by
  induction h with
  | nil => exact .refl []
  | code _ _ ih => exact ih.cons _
  | newline _ ih =>
    have hspace : Token.isSpace '\r' ∧ Token.isSpace '\n' := by decide
    refine ⟨?_, show Token.inWord '\r' = Token.inWord '\n' by decide⟩
    rw [tokens_space hspace.1, tokens_space hspace.2, tokens_space hspace.2, ih.tokens]
  | region kind _ _ _ ih => exact ih.region kind

theorem takeWhile_codeRun (h : Returned new old) :
    (codeRun new).takeWhile isIdentifierRest = (codeRun old).takeWhile isIdentifierRest := by
  induction h with
  | nil => rfl
  | code _ _ ih => rw [codeRun, codeRun, List.takeWhile_cons, List.takeWhile_cons, ih]
  | newline _ _ => rfl
  | region _ _ _ _ _ => rfl

theorem parametersFrom_eq (h : Returned new old) (before : Option Char) :
    parametersFrom before new = parametersFrom before old := by
  induction h generalizing before with
  | nil => rfl
  | @code _ new old _ rest ih =>
    have hname : identifierAt? (codeRun new) = identifierAt? (codeRun old) := by
      rw [← identifierAt?_takeWhile, rest.takeWhile_codeRun, identifierAt?_takeWhile]
    rw [parametersFrom, parametersFrom, ih, hname]
  | newline _ ih =>
    rw [parametersFrom_code_of_ne (by decide), parametersFrom_code_of_ne (by decide),
      parametersFrom_code_of_ne (by decide), ih]
  | region _ _ _ _ ih => exact ih none

/-- What the analysis of a statement reads is the same. -/
theorem reading_eq (h : Returned new old) : reading new = reading old := by
  rw [reading, reading, h.strip.trimStart.trimEnd.sameTokens.tokens, h.parametersFrom_eq]

end Returned

/-- A line comment with one more character is a line comment. -/
theorem wellFormed_lineComment_append {r : Region} (h : r.WellFormed) (hk : r.kind = .lineComment)
    {c : Char} (hc : c ≠ '\n') :
    '\n' ∉ r.text ∧ (⟨r.kind, r.text ++ [c], r.terminated⟩ : Region).WellFormed := by
  obtain ⟨inner, hi, hcl⟩ := h.closes
  have ht : r.terminated := by
    by_contra hn
    exact h.kind_ne_lineComment (by simpa using hn) hk
  rw [if_pos ht, hk, Region.Kind.close?_lineComment_iff] at hcl
  refine ⟨?_, h.tagged, inner ++ [c], by simp [hi], ?_⟩
  · rw [hi, hk, List.mem_append, not_or]
    exact ⟨by decide, fun hm => hcl _ hm rfl⟩
  · dsimp only
    rw [if_pos ht, hk, Region.Kind.close?_lineComment_iff]
    intro d hd
    rcases List.mem_append.mp hd with hd | hd
    · exact hcl d hd
    · rwa [List.mem_singleton.mp hd]

/-- What `Scanned.exists_returned` finds for a list of lexemes. -/
structure ReturnedScan (behind : Option Char) (ls new : List Lexeme) : Prop where
  scanned : Scanned behind new
  join : join new = crlf (join ls)
  returned : Returned new ls

namespace ReturnedScan
variable {behind : Option Char} {ls new : List Lexeme} {r : Region}

theorem literal (shape : r.WellFormed) (hk : r.kind ≠ .lineComment) (fits : r.kind.Fits behind)
    (released : r.Released (Lexeme.join ls)) (hr : '\r' ∉ r.text)
    (h : ReturnedScan r.text.getLast? ls new) :
    ReturnedScan behind (.region r :: ls)
      (.region ⟨r.kind, crlf r.text, r.terminated⟩ :: new) := by
  refine ⟨.region (shape.crlf hk) fits ?_ ?_, ?_, ?_⟩
  · rw [h.join]
    cases ht : r.terminated with
    | true => exact Region.Released.of_tamer rfl hk (tamer_crlf _) (by rwa [← ht])
    | false => rw [released.eq_nil ht, Region.Released, if_neg Bool.false_ne_true, crlf_nil]
  · rw [getLast?_crlf]
    exact h.scanned
  · rw [join_cons, join_cons, h.join, crlf_append, text, text]
  · exact .region rfl rfl (withoutReturns_crlf hr) h.returned

/-- The comment takes the carriage return in front of the newline that ends it. -/
theorem comment (shape : r.WellFormed) (hk : r.kind = .lineComment) (fits : r.kind.Fits behind)
    (hr : '\r' ∉ r.text) (h : ReturnedScan r.text.getLast? (.code '\n' :: ls) new) :
    ∃ new', ReturnedScan behind (.region r :: .code '\n' :: ls) new' := by
  obtain ⟨hs, hj, hn⟩ := h
  obtain ⟨hnl, hshape⟩ := wellFormed_lineComment_append shape hk (c := '\r') (by decide)
  rw [join_cons, text, List.singleton_append, crlf_newline] at hj
  cases hn with
  | code _ rest =>
    cases hj
  | @newline new _ rest =>
    have ht : r.terminated := by
      by_contra hn
      exact shape.kind_ne_lineComment (by simpa using hn) hk
    refine ⟨.region ⟨r.kind, r.text ++ ['\r'], r.terminated⟩ :: .code '\n' :: new, ?_, ?_, ?_⟩
    · refine .region hshape fits ?_ (.code (Region.Kind.opens?_inert isInert_newline _ _) ?_)
      · rw [Region.Released, if_pos ht, hk]
        simp [Region.Kind.Released, text]
      · exact (scanned_code_iff.mp (scanned_code_iff.mp hs).2).2
    · simpa [text, crlf_eq_self hnl, crlf_newline] using hj
    · refine .region rfl rfl ?_ (.code (by decide) rest)
      rw [withoutReturns_append, withoutReturns_eq_self hr]
      exact List.append_nil _

end ReturnedScan

/-- The scan of a text with carriage returns in front of its newlines. -/
theorem Scanned.exists_returned {before : Option Char} {ls : List Lexeme} (h : Scanned before ls)
    (hr : '\r' ∉ join ls) {behind : Option Char}
    (hb : behind.any isNameChar = before.any isNameChar) :
    ∃ new, ReturnedScan behind ls new := by
  induction h generalizing behind with
  | nil => exact ⟨[], .nil, rfl, .nil⟩
  | @code _ c ls free rest ih =>
    rw [join_cons, text, List.singleton_append, List.mem_cons, not_or] at hr
    by_cases hc : c = '\n'
    · subst hc
      obtain ⟨new, hs, hj, hn⟩ := ih hr.2 rfl
      refine ⟨.code '\r' :: .code '\n' :: new, ?_, ?_, .newline hn⟩
      · exact .code (Region.Kind.opens?_inert (by decide) _ _)
          (.code (Region.Kind.opens?_inert (by decide) _ _) hs)
      · simp [text, hj, crlf_newline]
    · obtain ⟨new, hs, hj, hn⟩ := ih hr.2 rfl
      refine ⟨.code c :: new, .code ?_ hs, ?_, .code (Ne.symm hr.1) hn⟩
      · rw [Region.Kind.opens?_congr_before fun _ => hb, hj]
        exact Region.Kind.opens?_eq_none_of_tamer (tamer_crlf (join ls)) free
      · simp [text, hj, crlf_cons_of_ne hc]
  | @region _ r ls shape fits released rest ih =>
    rw [join_cons, text, List.mem_append, not_or] at hr
    have hfits := shape.fits_congr (fun _ => hb.symm) fits
    obtain ⟨new, hnew⟩ := ih hr.2 rfl
    by_cases hk : r.kind = .lineComment
    · have hhead := shape.head?_of_lineComment released hk
      cases ls with
      | nil =>
        have hnl := (wellFormed_lineComment_append shape hk (c := '\r') (by decide)).1
        refine ⟨[.region r], .region shape hfits released .nil, ?_, ?_⟩
        · simp [text, crlf_eq_self hnl]
        · exact .region rfl rfl (withoutReturns_eq_self hr.1) .nil
      | cons l ls =>
        cases l with
        | code c =>
          obtain rfl : c = '\n' := hhead c rfl
          exact hnew.comment shape hk hfits hr.1
        | region s =>
          obtain ⟨d, ds, hd, hblank, -⟩ := (scanned_region_iff.mp rest).1.exists_text_cons
          have hd' := hhead d (by simp [text, hd])
          rw [hd'] at hblank
          exact absurd hblank (by decide)
    · exact ⟨_, hnew.literal shape hk hfits released hr.1⟩

theorem returned_scan_crlf {text : List Char} (h : '\r' ∉ text) :
    Returned (scan none (crlf text)) (scan none text) := by
  obtain ⟨new, hs, hj, hn⟩ := (scanned_scan none text).exists_returned
    (by rwa [join_scan]) (rfl : none.any isNameChar = none.any isNameChar)
  rw [join_scan] at hj
  rwa [← hj, hs.scan_join]

theorem parts_cons (l : Lexeme) (ls : List Lexeme) :
    parts (l :: ls) = if l = .code ';' then [] :: parts ls else (parts ls).modifyHead (l :: ·) := by
  rw [parts, List.splitOn_cons_eq_if_modifyHead]
  simp [parts]

theorem forall₂_modifyHead {R : List Lexeme → List Lexeme → Prop} {f g : List Lexeme → List Lexeme}
    (hR : ∀ new old, R new old → R (f new) (g old)) {news olds : List (List Lexeme)}
    (h : List.Forall₂ R news olds) : List.Forall₂ R (news.modifyHead f) (olds.modifyHead g) := by
  cases h with
  | nil => exact .nil
  | cons head tail => exact .cons (hR _ _ head) tail

theorem Returned.parts {new old : List Lexeme} (h : Returned new old) :
    List.Forall₂ Returned (parts new) (parts old) := by
  induction h with
  | nil => exact .cons .nil .nil
  | @code c _ _ ne _ ih =>
    rw [parts_cons, parts_cons]
    split
    · exact .cons .nil ih
    · exact forall₂_modifyHead (fun _ _ => .code ne) ih
  | newline _ ih =>
    have hr : Lexeme.code '\r' ≠ .code ';' := by decide
    have hn : Lexeme.code '\n' ≠ .code ';' := by decide
    rw [parts_cons, if_neg hr, parts_cons, if_neg hn, parts_cons, if_neg hn, List.modifyHead_modifyHead]
    exact forall₂_modifyHead (fun _ _ => .newline) ih
  | region kind terminated text _ ih =>
    rw [parts_cons, if_neg (by simp), parts_cons, if_neg (by simp)]
    exact forall₂_modifyHead (fun _ _ => .region kind terminated text) ih

end NamedSql.Lexeme

namespace NamedSql

/-- A trimmed text and the same one with carriage returns. -/
def ReturnedText (new old : List Char) : Prop :=
  ∃ news olds, Lexeme.Scanned none news ∧ Lexeme.Scanned none olds ∧
    Lexeme.Returned news olds ∧ new = trim (Lexeme.join news) ∧ old = trim (Lexeme.join olds)

namespace ReturnedText
variable {new old : List Char}

theorem withoutReturns_eq (h : ReturnedText new old) : withoutReturns new = old := by
  obtain ⟨news, olds, -, -, hr, rfl, rfl⟩ := h
  rw [withoutReturns_trim, hr.withoutReturns_join]

theorem withoutReturns_stripComments (h : ReturnedText new old) :
    withoutReturns (stripComments new) = stripComments old := by
  obtain ⟨news, olds, hn, ho, hr, rfl, rfl⟩ := h
  rw [stripComments_trim, stripComments_trim, stripComments_eq, stripComments_eq, hn.scan_join,
    ho.scan_join, withoutReturns_trim, hr.strip.withoutReturns_join]

/-- A text that begins with no blank is not empty without its carriage returns. -/
theorem isEmpty_withoutReturns_trim (cs : List Char) :
    (withoutReturns (trim cs)).isEmpty = (trim cs).isEmpty := by
  cases ht : trim cs with
  | nil => rfl
  | cons c ds =>
    have hc : isBlank c = false := by
      apply isBlank_head?_trim
      rw [ht]
      exact rfl
    have hw := withoutReturns_append [c] ds
    rw [withoutReturns_singleton hc, List.singleton_append] at hw
    rw [hw]
    rfl

theorem isEmpty_eq (h : ReturnedText new old) : new.isEmpty = old.isEmpty := by
  rw [← h.withoutReturns_eq]
  obtain ⟨news, olds, -, -, -, rfl, -⟩ := h
  exact (isEmpty_withoutReturns_trim _).symm

theorem isCommentOnly_eq (h : ReturnedText new old) : isCommentOnly new = isCommentOnly old := by
  rw [isCommentOnly, isCommentOnly, ← h.withoutReturns_stripComments, stripComments_eq]
  exact (isEmpty_withoutReturns_trim _).symm

theorem reading_eq (h : ReturnedText new old) : reading new = reading old := by
  obtain ⟨news, olds, hn, ho, hr, rfl, rfl⟩ := h
  rw [hn.reading_trim_join, ho.reading_trim_join, hr.reading_eq]

end ReturnedText

end NamedSql
