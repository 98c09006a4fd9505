import NamedSql.Classification
import NamedSql.Proofs.BlankEnds
import NamedSql.Proofs.Extents

namespace NamedSql

namespace Lexeme

theorem tokens_ne_nil_of_startsWord {ls : List Lexeme} (h : startsWord ls) : tokens ls ≠ [] := by
  cases ls with
  | nil => cases h
  | cons l ls =>
    cases l with
    | region r => cases h
    | code c =>
      have hc : Token.inWord c := h
      rw [tokens_code]
      unfold Token.addCode
      rw [if_pos hc]
      split <;> apply List.cons_ne_nil

theorem startsWord_append {as bs : List Lexeme} (h : startsWord bs = false) :
    startsWord (as ++ bs) = startsWord as := by
  cases as with
  | nil => exact h
  | cons l as => cases l <;> rfl

/-- No word reaches over the joint. -/
theorem tokens_append {as bs : List Lexeme} (h : startsWord bs = false) :
    tokens (as ++ bs) = tokens as ++ tokens bs := by
  induction as with
  | nil => rfl
  | cons l as ih =>
    cases l with
    | region r => rw [List.cons_append, tokens_region, tokens_region, ih, List.append_assoc]
    | code c =>
      rw [List.cons_append, tokens_code, tokens_code, startsWord_append h, ih]
      exact Token.addCode_append tokens_ne_nil_of_startsWord _

theorem tokens_code_of_not_inWord {c : Char} (h : Token.inWord c = false) (ls : List Lexeme) :
    tokens (.code c :: ls) = (Token.ofChar? c).toList ++ tokens ls := by
  have hn : ¬ Token.inWord c := Bool.not_eq_true _ ▸ h
  rw [tokens_code]
  unfold Token.addCode
  rw [if_neg hn]

theorem closed_strip {ls : List Lexeme} (h : Closed ls) : Closed (strip ls) := by
  induction ls with
  | nil => exact h
  | cons l ls ih =>
    cases l with
    | code c => exact closed_code_iff.mpr (ih (closed_code_iff.mp h))
    | region r =>
      obtain ⟨hr, hls⟩ := closed_region_iff.mp h
      rcases r.kind.comment_cases with hk | hk | hk
      · rw [strip_lineComment hk]
        exact ih hls
      · rw [strip_blockComment hk]
        exact closed_code_iff.mpr (ih hls)
      · rw [strip_literal hk]
        exact closed_region_iff.mpr ⟨hr, ih hls⟩

/-- Behind closed regions only the last part is trimmed. -/
theorem trimEnd_append {as bs : List Lexeme} (ha : Closed as) (hb : trimEnd bs ≠ []) :
    trimEnd (as ++ bs) = as ++ trimEnd bs := by
  induction as with
  | nil => rfl
  | cons l as ih =>
    cases l with
    | code c =>
      rw [List.cons_append, trimEnd, ih (closed_code_iff.mp ha)]
      simp [hb]
    | region r =>
      obtain ⟨hr, has⟩ := closed_region_iff.mp ha
      rw [List.cons_append, trimEnd, ih has, Region.trimOpen_of_terminated hr, List.cons_append]

theorem trimEnd_ne_nil {c : Char} (h : isBlank c = false) (ls : List Lexeme) :
    trimEnd (.code c :: ls) ≠ [] := by
  simp [trimEnd, h]

/-- Where nothing is open at the end, blanks of code are all that trimming drops there. -/
theorem exists_blanks_of_closed {ls : List Lexeme} (h : Closed ls) :
    ∃ blanks : List Char, ls = trimEnd ls ++ blanks.map .code ∧ ∀ c ∈ blanks, isBlank c := by
  induction ls with
  | nil => exact ⟨[], rfl, by simp⟩
  | cons l ls ih =>
    cases l with
    | region r =>
      obtain ⟨hr, hls⟩ := closed_region_iff.mp h
      obtain ⟨blanks, he, hb⟩ := ih hls
      refine ⟨blanks, ?_, hb⟩
      rw [trimEnd, Region.trimOpen_of_terminated hr, List.cons_append, ← he]
    | code c =>
      obtain ⟨blanks, he, hb⟩ := ih (closed_code_iff.mp h)
      by_cases hc : (trimEnd ls).isEmpty && isBlank c
      · obtain ⟨hn, hc'⟩ := Bool.and_eq_true_iff.mp hc
        refine ⟨c :: blanks, ?_, by simpa [hc'] using hb⟩
        rw [List.isEmpty_iff.mp hn, List.nil_append] at he
        rw [trimEnd, if_pos hc, List.nil_append, List.map_cons, ← he]
      · refine ⟨blanks, ?_, hb⟩
        rw [trimEnd, if_neg hc, List.cons_append, ← he]

theorem strip_eq_self {ls : List Lexeme} (h : Plain ls) : strip ls = ls := by
  induction ls with
  | nil => rfl
  | cons l ls ih =>
    cases l with
    | code c => rw [strip_code, ih (plain_code_iff.mp h)]
    | region r =>
      obtain ⟨hr, hls⟩ := plain_region_iff.mp h
      rw [strip_literal hr, ih hls]

theorem strip_map_code (cs : List Char) : strip (cs.map .code) = cs.map .code :=
  strip_eq_self (by simp [Plain, regions])

theorem trimEnd_map_code_append {cs : List Char} (h : ∀ c ∈ cs, isBlank c = false)
    (ls : List Lexeme) : trimEnd (cs.map .code ++ ls) = cs.map .code ++ trimEnd ls := by
  induction cs with
  | nil => rfl
  | cons c cs ih =>
    rw [List.map_cons, List.cons_append, trimEnd, ih fun d hd => h d (List.mem_cons_of_mem c hd)]
    simp [h c List.mem_cons_self]

theorem startsWord_trimEnd {ls : List Lexeme} (h : startsWord ls = false) :
    startsWord (trimEnd ls) = false := by
  cases ls with
  | nil => rfl
  | cons l ls =>
    cases l with
    | region r => rfl
    | code c =>
      rw [trimEnd]
      split
      · rfl
      · exact h

theorem tokens_map_code (cs : List Char) : tokens (cs.map .code) = Token.ofCode cs := by
  induction cs with
  | nil => exact Token.ofCode_nil.symm
  | cons c cs ih =>
    have hs : startsWord (cs.map .code) = cs.head?.any Token.inWord := by
      cases cs <;> rfl
    rw [List.map_cons, tokens_code, hs, ih, ← Token.ofCode_cons]

theorem endsInLineComment_append_code_iff {as bs : List Lexeme} {c : Char} :
    EndsInLineComment (as ++ .code c :: bs) ↔ EndsInLineComment bs := by
  have hl : (as ++ .code c :: bs).getLast? = (Lexeme.code c :: bs).getLast? :=
    List.getLast?_append_of_ne_nil _ (List.cons_ne_nil _ _)
  rw [EndsInLineComment, hl]
  exact endsInLineComment_code_iff

end Lexeme

open Lexeme

/-- Nothing is open behind the text, and no line comment runs on there. -/
structure Whole (text : List Char) : Prop where
  closed : Closed (scan none text)
  ended : ¬ EndsInLineComment (scan none text)

/-- The text begins with a character of code that is not blank. -/
def Flush (text : List Char) : Prop :=
  ∃ c cs, text = c :: cs ∧ isPlain c ∧ isBlank c = false

variable {c : Char} {as bs : List Char}

theorem Whole.nil : Whole [] :=
  ⟨by simp [scan_nil], by simp [scan_nil]⟩

namespace Whole

theorem scan_append (h : Whole as) (hc : isInert c) (bs : List Char) :
    scan none (as ++ c :: bs) = scan none as ++ .code c :: scan none bs :=
  scan_append_inert hc h.closed fun he => absurd he h.ended

theorem closed_append_iff (h : Whole as) (hc : isInert c) :
    Closed (scan none (as ++ c :: bs)) ↔ Closed (scan none bs) := by
  rw [h.scan_append hc, Lexeme.closed_append_iff, closed_code_iff]
  exact and_iff_right h.closed

theorem endsInLineComment_append_iff (h : Whole as) (hc : isInert c) :
    EndsInLineComment (scan none (as ++ c :: bs)) ↔ EndsInLineComment (scan none bs) := by
  rw [h.scan_append hc]
  exact endsInLineComment_append_code_iff

theorem append (ha : Whole as) (hb : Whole bs) (hc : isInert c) : Whole (as ++ c :: bs) :=
  ⟨(ha.closed_append_iff hc).mpr hb.closed, mt (ha.endsInLineComment_append_iff hc).mp hb.ended⟩

end Whole

theorem Flush.scan_eq (h : Flush as) :
    ∃ d ls, scan none as = .code d :: ls ∧ isBlank d = false := by
  obtain ⟨d, ds, rfl, hp, hb⟩ := h
  exact ⟨d, _, scan_of_code (Region.Kind.opens?_plain hp none ds), hb⟩

theorem Flush.trimStart_strip (h : Flush as) :
    Lexeme.trimStart (strip (scan none as)) = strip (scan none as) := by
  obtain ⟨d, ls, hs, hb⟩ := h.scan_eq
  rw [hs, strip_code, Lexeme.trimStart, if_neg (by simp [hb])]

theorem Flush.trimEnd_strip_ne_nil (h : Flush as) :
    Lexeme.trimEnd (strip (scan none as)) ≠ [] := by
  obtain ⟨d, ls, hs, hb⟩ := h.scan_eq
  rw [hs, strip_code]
  exact trimEnd_ne_nil hb _

theorem ofText_append (hc : isInert c) (hw : Token.inWord c = false) (hcl : Closed (scan none as))
    (hl : EndsInLineComment (scan none as) → c = '\n') (bs : List Char) :
    Token.ofText (as ++ c :: bs) =
      Token.ofText as ++ ((Token.ofChar? c).toList ++ Token.ofText bs) := by
  rw [← tokens_scan, scan_append_inert hc hcl hl, tokens_append (by exact hw),
    tokens_code_of_not_inWord hw, tokens_scan, tokens_scan]

theorem Whole.ofText_append (h : Whole as) (hc : isInert c) (hw : Token.inWord c = false)
    (bs : List Char) : Token.ofText (as ++ c :: bs) =
      Token.ofText as ++ ((Token.ofChar? c).toList ++ Token.ofText bs) :=
  NamedSql.ofText_append hc hw h.closed (fun he => absurd he h.ended) bs

theorem ofText_nil : Token.ofText [] = [] := by
  rw [← tokens_scan, scan_nil]
  rfl

theorem Whole.openParen (h : Whole as) : Whole ('(' :: as) :=
  Whole.nil.append h (by decide)

theorem Whole.closeParen (h : Whole as) : Whole (as ++ [')']) :=
  h.append .nil (by decide)

theorem ofText_openParen (as : List Char) :
    Token.ofText ('(' :: as) = .openParen :: Token.ofText as := by
  rw [← List.nil_append ('(' :: as), Whole.nil.ofText_append (by decide) (by decide), ofText_nil]
  rfl

theorem Whole.ofText_closeParen (h : Whole as) :
    Token.ofText (as ++ [')']) = Token.ofText as ++ [.closeParen] := by
  rw [h.ofText_append (by decide) (by decide), ofText_nil]
  rfl

theorem statementTokens_eq_tokens (text : List Char) : statementTokens text =
    tokens (Lexeme.trimEnd (Lexeme.trimStart (strip (scan none text)))) := by
  rw [statementTokens, ← tokens_scan, scan_stripComments]

/-- What the statement is trimmed of stands at the end of its second part. -/
theorem Flush.statementTokens_eq {ls more : List Lexeme} {text : List Char} (h : Flush as)
    (hs : scan none text = scan none as ++ ls) (hcl : Closed (scan none as))
    (hm : Lexeme.trimEnd (strip ls) = more) (hne : more ≠ []) (hw : startsWord more = false) :
    statementTokens text = Token.ofText as ++ tokens more := by
  obtain ⟨d, ds, he, hb⟩ := h.scan_eq
  have hstart : Lexeme.trimStart (strip (scan none as) ++ strip ls) =
      strip (scan none as) ++ strip ls := by
    rw [he, strip_code, List.cons_append, Lexeme.trimStart, if_neg (by simp [hb])]
  rw [statementTokens_eq_tokens, hs, strip_append, hstart,
    Lexeme.trimEnd_append (closed_strip hcl) (by rwa [hm]), hm, tokens_append hw,
    (scanned_scan none as).sameTokens_strip.tokens, tokens_scan]

theorem statementTokens_append (ha : Flush as) (hb : Flush bs) (hc : isInert c)
    (hw : Token.inWord c = false) (hcl : Closed (scan none as))
    (hl : EndsInLineComment (scan none as) → c = '\n') :
    statementTokens (as ++ c :: bs) =
      Token.ofText as ++ ((Token.ofChar? c).toList ++ statementTokens bs) := by
  have hm : Lexeme.trimEnd (strip (.code c :: scan none bs)) =
      .code c :: Lexeme.trimEnd (strip (scan none bs)) := by
    rw [strip_code, Lexeme.trimEnd]
    simp [hb.trimEnd_strip_ne_nil]
  rw [ha.statementTokens_eq (scan_append_inert hc hcl hl) hcl hm (List.cons_ne_nil _ _) hw,
    tokens_code_of_not_inWord hw, statementTokens_eq_tokens, hb.trimStart_strip]

/-- A statement that ends in a closing parenthesis is not trimmed at its end. -/
theorem Flush.statementTokens_closeParen (ha : Flush as) (h : Whole as) :
    statementTokens (as ++ [')']) = Token.ofText as ++ [.closeParen] := by
  have hs : scan none (as ++ [')']) = scan none as ++ [.code ')'] := by
    rw [h.scan_append (by decide), scan_nil]
  have hw : Token.inWord ')' = false := by decide
  rw [ha.statementTokens_eq hs h.closed rfl (trimEnd_ne_nil (by decide) []) hw]
  congr 1
  exact tokens_code_of_not_inWord hw []

/-- An ASCII blank is in no word and is no parenthesis. -/
theorem ofChar?_of_isBlank (hb : isBlank c) (ha : c.toNat < 128) :
    Token.inWord c = false ∧ ∀ t ∈ Token.ofChar? c, t = .other := by
  by_cases hv : c = '\x0b'
  · subst hv
    decide
  · have hs := Token.isSpace_of_isBlank hb ha hv
    refine ⟨Token.inWord_of_isSpace hs, ?_⟩
    rw [Token.ofChar?_of_isSpace hs]
    simp

theorem eq_other_of_mem_ofCode (hb : ∀ d ∈ as, isBlank d) (ha : ∀ d ∈ as, d.toNat < 128) :
    ∀ t ∈ Token.ofCode as, t = .other := by
  induction as with
  | nil => simp
  | cons d ds ih =>
    obtain ⟨hd, hds⟩ := List.forall_mem_cons.mp hb
    obtain ⟨hd', hds'⟩ := List.forall_mem_cons.mp ha
    obtain ⟨hw, ho⟩ := ofChar?_of_isBlank hd hd'
    rw [Token.ofCode_not_word hw, List.forall_mem_append]
    exact ⟨by simpa using ho, ih hds hds'⟩

/-- Trimming ASCII blanks drops no word and no parenthesis. -/
theorem Flush.exists_ofText_eq (h : Flush as) (hp : Plain (scan none as))
    (hc : Closed (scan none as)) (ha : ∀ d ∈ as.reverse.takeWhile isBlank, d.toNat < 128) :
    ∃ others, Token.ofText as = statementTokens as ++ others ∧ ∀ t ∈ others, t = .other := by
  obtain ⟨blanks, he, hb⟩ := exists_blanks_of_closed hc
  have hend : ∀ d ∈ blanks, d.toNat < 128 := by
    intro d hd
    apply ha
    have hj := congrArg join he
    rw [join_scan, join_append, join_map_code] at hj
    rw [hj, List.reverse_append, List.takeWhile_append_of_pos (by simpa using hb)]
    exact List.mem_append_left _ (List.mem_reverse.mpr hd)
  have hstart : startsWord (blanks.map .code) = false := by
    cases blanks with
    | nil => rfl
    | cons d ds => exact (ofChar?_of_isBlank (hb d List.mem_cons_self)
        (hend d List.mem_cons_self)).1
  refine ⟨Token.ofCode blanks, ?_, eq_other_of_mem_ofCode hb hend⟩
  rw [statementTokens_eq_tokens, h.trimStart_strip, strip_eq_self hp, ← tokens_scan, he,
    tokens_append hstart, tokens_map_code, ← he]

theorem ofCode_eq_word (hne : as ≠ []) (h : ∀ c ∈ as, Token.inWord c) :
    Token.ofCode as = [.word as] := by
  obtain ⟨c, cs, rfl⟩ := List.exists_cons_of_ne_nil hne
  obtain ⟨hc, hcs⟩ := List.forall_mem_cons.mp h
  rw [Token.ofCode_word hc, List.takeWhile_eq_self_iff.mpr hcs, List.dropWhile_eq_nil_iff.mpr hcs,
    Token.ofCode_nil]

theorem scan_of_plain (h : ∀ c ∈ as, isPlain c) : scan none as = as.map .code := by
  obtain ⟨behind, hs⟩ := scan_append_plain h [] none
  rwa [scan_nil, List.append_nil, List.append_nil] at hs

theorem Whole.of_plain (h : ∀ c ∈ as, isPlain c) : Whole as := by
  refine ⟨?_, ?_⟩
  · rw [scan_of_plain h]
    simp [Closed]
  · rw [scan_of_plain h]
    simp [EndsInLineComment, List.getLast?_map]

theorem isPlain_of_mem_identifier (h : isIdentifier as) : ∀ c ∈ as, isPlain c :=
  fun c hc => isPlain_of_all (by decide) (all_rest_of_isIdentifier h c hc)

theorem whole_identifier (h : isIdentifier as) : Whole as :=
  .of_plain (isPlain_of_mem_identifier h)

theorem ofText_word (hne : as ≠ []) (hp : ∀ c ∈ as, isPlain c) (hw : ∀ c ∈ as, Token.inWord c) :
    Token.ofText as = [.word as] := by
  rw [← tokens_scan, scan_of_plain hp, tokens_map_code, ofCode_eq_word hne hw]

/-- A word at the beginning of a statement is its first token. -/
theorem statementTokens_word_append (hne : as ≠ []) (hp : ∀ c ∈ as, isPlain c)
    (hw : ∀ c ∈ as, Token.inWord c) (hb : ∀ c ∈ as, isBlank c = false)
    (hr : ∀ c ∈ bs.head?, Token.inWord c = false) :
    ∃ ts, statementTokens (as ++ bs) = .word as :: ts := by
  obtain ⟨behind, hs⟩ := scan_append_plain hp bs none
  have hflush : Flush (as ++ bs) := by
    obtain ⟨c, cs, rfl⟩ := List.exists_cons_of_ne_nil hne
    exact ⟨c, cs ++ bs, rfl, hp c List.mem_cons_self, hb c List.mem_cons_self⟩
  have hstart : startsWord (Lexeme.trimEnd (strip (scan behind bs))) = false := by
    apply startsWord_trimEnd
    rw [(scanned_scan behind bs).sameTokens_strip.start]
    apply startsWord_of_head?
    rwa [join_scan]
  refine ⟨tokens (Lexeme.trimEnd (strip (scan behind bs))), ?_⟩
  rw [statementTokens_eq_tokens, hflush.trimStart_strip, hs, strip_append, strip_map_code,
    trimEnd_map_code_append hb, tokens_append hstart, tokens_map_code, ofCode_eq_word hne hw]
  rfl

end NamedSql
