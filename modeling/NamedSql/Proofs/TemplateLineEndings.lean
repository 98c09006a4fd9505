import NamedSql.Proofs.LineEndingScan
import NamedSql.Proofs.MarkerPlaces

namespace NamedSql

open Lexeme

/-- A line and the same one with a carriage return in front of its newline. -/
structure Line.Returned (new old : Line) : Prop where
  content : new.content = old.content
  ending : new.ending = crlf old.ending
  number : new.start.line = old.start.line
  newline : '\n' ∉ old.content
  returns : '\r' ∉ old.text

namespace Line
variable {new old : Line} {news olds : List Line}

theorem Returned.text_eq (h : Returned new old) : new.text = crlf old.text := by
  rw [text, text, h.content, h.ending, crlf_append, crlf_eq_self h.newline]

theorem Returned.blank (h : Returned new old) : Returned new.blank old.blank := by
  refine ⟨?_, h.ending, h.number, by simp [Line.blank], ?_⟩
  · simp only [Line.blank, h.content]
  · have hr := h.returns
    rw [text, List.mem_append, not_or] at hr ⊢
    exact ⟨by simp [Line.blank], hr.2⟩

theorem join_returned (h : List.Forall₂ Returned news olds) :
    join news = crlf (join olds) ∧ '\r' ∉ join olds := by
  induction h with
  | nil => exact ⟨rfl, List.not_mem_nil⟩
  | cons head _ ih =>
    rw [join_cons, join_cons, crlf_append, head.text_eq, ih.1, List.mem_append, not_or]
    exact ⟨rfl, head.returns, ih.2⟩

theorem ofChars_of_plain {body : List Char} (hn : '\n' ∉ body) (hr : '\r' ∉ body)
    (start : Position) : ofChars start body = ⟨start, body, []⟩ := by
  have hd : dropEndWhile isEnding body = body := by
    refine dropEndWhile_eq_self fun c hc => ?_
    have hm := List.mem_of_getLast? hc
    rw [isEnding, Bool.or_eq_false_iff, beq_eq_false_iff_ne, beq_eq_false_iff_ne]
    exact ⟨fun he => hn (he ▸ hm), fun he => hr (he ▸ hm)⟩
  simp [ofChars, hd]

theorem returned_locate {text : List Char} (h : '\r' ∉ text) {start' start : Position}
    (hs : start'.line = start.line) :
    List.Forall₂ Returned (locate start' (cut (crlf text))) (locate start (cut text)) := by
  induction text using separator_induction '\n' generalizing start' start with
  | last text hn =>
    rw [crlf_eq_self hn]
    rcases eq_or_ne text [] with rfl | hne
    · exact .nil
    · rw [cut_of_not_mem hne hn, locate, locate, locate, locate, ofChars_of_plain hn h,
        ofChars_of_plain hn h]
      exact .cons ⟨rfl, rfl, hs, hn, by simpa [Line.text] using h⟩ .nil
  | cut body rest hn ih =>
    simp only [List.mem_append, List.mem_cons, not_or] at h
    have hcut : crlf (body ++ '\n' :: rest) = (body ++ ['\r']) ++ '\n' :: crlf rest := by
      simp [crlf_eq_self hn, crlf_newline]
    have hbody : '\n' ∉ body ++ ['\r'] := by simpa using hn
    have hends : ∀ c ∈ ['\r'] ++ ['\n'], isEnding c := by simp [isEnding]
    have hend : ∀ c ∈ ['\n'], isEnding c := by simp [isEnding]
    rw [hcut, cut_append_newline hbody, cut_append_newline hn, locate, locate, List.append_assoc,
      ofChars_append hends, ofChars_append hend, ofChars_of_plain hn h.1, ofChars_of_plain hn h.1]
    refine .cons ⟨rfl, rfl, hs, hn, ?_⟩ (ih h.2.2 ?_)
    · simpa [Line.text] using h.1
    · simp [hs]

theorem returned_ofText {text : List Char} (h : '\r' ∉ text) :
    List.Forall₂ Returned (ofText (crlf text)) (ofText text) :=
  returned_locate h rfl

end Line

namespace Outline
variable {news olds : List Line}

/-- Both headers are refused with the same error, or both give the same class name. -/
theorem readHeader_returned (h : List.Forall₂ Line.Returned news olds) :
    (∃ e, readHeader news = .error e ∧ readHeader olds = .error e) ∨
      ∃ className news' olds', readHeader news = .ok (className, news') ∧
        readHeader olds = .ok (className, olds') ∧ List.Forall₂ Line.Returned news' olds' := by
  cases h with
  | nil => exact .inr ⟨none, [], [], rfl, rfl, .nil⟩
  | @cons new old _ _ head tail =>
    have ho : Header.ofLine new = Header.ofLine old := by
      rw [Header.ofLine, Header.ofLine, head.content]
    rw [readHeader, readHeader, ho]
    cases Header.ofLine old with
    | absent => exact .inr ⟨none, _, _, rfl, rfl, .cons head tail⟩
    | empty => exact .inl ⟨_, rfl, rfl⟩
    | named name =>
      by_cases hi : isIdentifier name
      · exact .inr ⟨_, _, _, if_pos hi, if_pos hi, .cons head.blank tail⟩
      · exact .inl ⟨_, if_neg hi, if_neg hi⟩

/-- The lines are the same markers. -/
theorem markerIn_returned {front front' : List Line}
    (hn : Line.Follows .origin (front' ++ news)) (ho : Line.Follows .origin (front ++ olds))
    (hf : List.Forall₂ Line.Returned front' front) (h : List.Forall₂ Line.Returned news olds) :
    List.Forall₂ (fun new old => Line.Returned new old ∧
      markerIn (front' ++ news) new = markerIn (front ++ olds) old) news olds := by
  induction h generalizing front front' with
  | nil => exact .nil
  | @cons new old news olds head tail ih =>
    refine .cons ⟨head, ?_⟩ ?_
    · obtain ⟨hj, hr⟩ := Line.join_returned hf
      have hclosed : Closed (scan none (Line.join front')) ↔
          Closed (scan none (Line.join front)) := by
        rw [hj]
        exact (returned_scan_crlf hr).closed_iff
      have hm := markerIn_eq_map id ho hn head.content head.number hclosed
      simpa using hm
    · have happ (l : Line) (as bs : List Line) : as ++ l :: bs = (as ++ [l]) ++ bs := by simp
      rw [happ new] at hn ⊢
      rw [happ old] at ho ⊢
      exact ih hn ho (List.rel_append hf (.cons head .nil))

end Outline

structure Section.Returned (new old : Section) : Prop where
  marker : new.marker = old.marker
  number : new.start.line = old.start.line
  text : new.text = crlf old.text
  returns : '\r' ∉ old.text

theorem Outline.cutAtMarkers_returned {used' used : Line → Option Marker} {news olds : List Line}
    (h : List.Forall₂ (fun new old => Line.Returned new old ∧ used' new = used old) news olds) :
    (cutAtMarkers used' news).1 = crlf (cutAtMarkers used olds).1 ∧
      '\r' ∉ (cutAtMarkers used olds).1 ∧
        List.Forall₂ Section.Returned (cutAtMarkers used' news).2 (cutAtMarkers used olds).2 := by
  induction h with
  | nil => exact ⟨rfl, List.not_mem_nil, .nil⟩
  | @cons new old _ _ head _ ih =>
    obtain ⟨hl, hu⟩ := head
    obtain ⟨hlead, hr, hsections⟩ := ih
    rw [cutAtMarkers, cutAtMarkers, hu]
    have hreturns := hl.returns
    cases used old with
    | none =>
      refine ⟨?_, List.not_mem_append hreturns hr, hsections⟩
      change new.text ++ _ = crlf (old.text ++ _)
      rw [hl.text_eq, hlead, crlf_append]
    | some m =>
      refine ⟨rfl, List.not_mem_nil, .cons ⟨rfl, ?_, ?_, ?_⟩ hsections⟩
      · rw [Line.contentStop, Line.contentStop, Position.line_after, Position.line_after, hl.number,
          hl.content]
      · change new.ending ++ _ = crlf (old.ending ++ _)
        rw [hl.ending, hlead, crlf_append]
      · rw [Line.text, List.mem_append, not_or] at hreturns
        exact List.not_mem_append hreturns.2 hr

structure Excerpt.Returned (new old : Excerpt) : Prop where
  number : new.start.line = old.start.line
  chars : ReturnedText new.chars old.chars

theorem count_newline_takeWhile_isBlank (cs : List Char) :
    ((withoutReturns cs).takeWhile isBlank).count '\n' = (cs.takeWhile isBlank).count '\n' := by
  have hnew := congrArg (List.count '\n') (takeWhile_append_trimStart (withoutReturns cs))
  have hold := congrArg (List.count '\n') (takeWhile_append_trimStart cs)
  rw [List.count_append, ← withoutReturns_trimStart, count_newline_withoutReturns,
    count_newline_withoutReturns] at hnew
  rw [List.count_append] at hold
  omega

namespace Excerpt

theorem returned_locate {news olds : List (List Lexeme)}
    (h : List.Forall₂ Lexeme.Returned news olds) (hn : ∀ ls ∈ news, Scanned none ls)
    (ho : ∀ ls ∈ olds, Scanned none ls) {start' start : Position} (hs : start'.line = start.line) :
    List.Forall₂ Returned ((locate start' (news.map join)).map trim)
      ((locate start (olds.map join)).map trim) := by
  induction h generalizing start' start with
  | nil => exact .nil
  | @cons new old _ _ head _ ih =>
    rw [List.forall_mem_cons] at hn ho
    refine .cons ⟨?_, new, old, hn.1, ho.1, head, rfl, rfl⟩ (ih hn.2 ho.2 ?_)
    · have hc := count_newline_takeWhile_isBlank (join new)
      rw [head.withoutReturns_join] at hc
      simp only [trim, Position.line_after, hs, hc]
    · have hc := count_newline_withoutReturns (join new)
      rw [head.withoutReturns_join] at hc
      simp only [Position.line_after, List.count_append, hs, hc]

theorem returned_ofScript {text : List Char} (h : '\r' ∉ text) {start' start : Position}
    (hs : start'.line = start.line) :
    List.Forall₂ Returned (ofScript start' (crlf text)) (ofScript start text) := by
  have hparts := (returned_scan_crlf h).parts
  have hl := returned_locate hparts (fun ls => (scanned_scan none _).of_mem_parts)
    (fun ls => (scanned_scan none _).of_mem_parts) hs
  rw [map_join_parts, map_join_parts, pieces_scan, pieces_scan] at hl
  refine List.rel_filter ?_ hl
  intro new old he
  simp only [he.chars.isEmpty_eq]

end Excerpt

namespace Section
variable {new old : Section}

theorem Returned.statements (h : Returned new old) :
    List.Forall₂ Excerpt.Returned new.statements old.statements := by
  unfold Section.statements excerpts
  rw [h.text]
  refine List.rel_filter ?_ (Excerpt.returned_ofScript h.returns h.number)
  intro new old he
  simp only [he.chars.isCommentOnly_eq]

theorem Returned.named (h : Returned new old) :
    List.Forall₂ (fun new old => new.1 = old.1 ∧ new.2.Returned old.2) new.named old.named := by
  have hs := h.statements
  unfold Section.named
  rw [h.marker]
  generalize new.statements = news at hs ⊢
  generalize old.statements = olds at hs ⊢
  cases hs with
  | nil => exact .nil
  | cons head tail =>
    refine .cons ⟨rfl, head⟩ (List.rel_map ?_ tail)
    intro new old he
    exact ⟨rfl, he⟩

end Section

theorem reading_apply (policy : CommentPolicy) (sql : List Char) :
    reading (policy.apply sql) = reading sql := by
  cases policy with
  | strip =>
    rw [CommentPolicy.apply, reading, statementTokens_stripComments, parametersOfText_stripComments,
      reading]
  | keep =>
    rw [CommentPolicy.apply, reading, statementTokens, stripComments_trim, parametersOfText_trim,
      reading, statementTokens]

theorem withoutReturns_apply (policy : CommentPolicy) {new old : List Char}
    (h : ReturnedText new old) : withoutReturns (policy.apply new) = policy.apply old := by
  cases policy with
  | strip => exact h.withoutReturns_stripComments
  | keep => rw [CommentPolicy.apply, CommentPolicy.apply, withoutReturns_trim, h.withoutReturns_eq]

/-- The statement with the carriage returns deleted from its text. -/
def Statement.withoutReturns (s : Statement) : Statement :=
  { s with text := String.ofList (NamedSql.withoutReturns s.text.toList) }

def NamedStatement.withoutReturns (s : NamedStatement) : NamedStatement :=
  { s with statement := s.statement.withoutReturns }

def Template.withoutReturns (template : Template) : Template :=
  { template with statements := template.statements.map NamedStatement.withoutReturns }

theorem NamedStatement.ofExcerpt_returned (policy : CommentPolicy) (ordinal : Nat)
    (name : Option String) {new old : Excerpt} (h : new.Returned old) :
    (ofExcerpt policy ordinal name new).withoutReturns = ofExcerpt policy ordinal name old := by
  have hreading : reading (policy.apply new.chars) = reading (policy.apply old.chars) := by
    rw [reading_apply, reading_apply, h.chars.reading_eq]
  have hmode : Mode.ofStatement (policy.apply new.chars) =
      Mode.ofStatement (policy.apply old.chars) :=
    congrArg Mode.ofTokens (congrArg Prod.fst hreading)
  have hanalysis : Analysis.ofStatement (String.ofList (policy.apply new.chars)) =
      Analysis.ofStatement (String.ofList (policy.apply old.chars)) := by
    apply Analysis.ofStatement_factorsThrough
    simpa using hreading
  simp only [ofExcerpt, withoutReturns, Statement.ofSource, Statement.withoutReturns,
    String.toList_ofList, withoutReturns_apply policy h.chars, hmode, hanalysis, h.number]

theorem map_zipIdx_eq_of_forall₂ {α β γ : Type} {R : α → β → Prop} {f : α × Nat → γ}
    {g : β × Nat → γ} (hR : ∀ a b i, R a b → f (a, i) = g (b, i)) {as : List α} {bs : List β}
    (h : List.Forall₂ R as bs) (start : Nat) :
    (as.zipIdx start).map f = (bs.zipIdx start).map g := by
  induction h generalizing start with
  | nil => rfl
  | cons head _ ih =>
    rw [List.zipIdx_cons, List.zipIdx_cons, List.map_cons, List.map_cons, hR _ _ _ head, ih]

namespace Outline
variable {news olds : List Section}

theorem toTemplate_returned (policy : CommentPolicy) (className : Option String)
    (h : List.Forall₂ Section.Returned news olds) :
    (toTemplate policy ⟨className, news⟩).withoutReturns = toTemplate policy ⟨className, olds⟩ := by
  have hnamed := List.rel_flatMap h fun new old (hs : new.Returned old) => hs.named
  simp only [toTemplate, Template.withoutReturns, List.map_map]
  refine congrArg _ (map_zipIdx_eq_of_forall₂ ?_ hnamed 0)
  intro new old i hr
  obtain ⟨hname, he⟩ := hr
  rw [Function.comp_apply, NamedStatement.ofExcerpt_returned policy i new.1 he, hname]

theorem filterMap_eq_of_forall₂ {used' used : Line → Option Marker} {news olds : List Line}
    (h : List.Forall₂ (fun new old => Line.Returned new old ∧ used' new = used old) news olds) :
    news.filterMap used' = olds.filterMap used := by
  induction h with
  | nil => rfl
  | cons head _ ih => rw [List.filterMap_cons, List.filterMap_cons, head.2, ih]

end Outline

namespace Template

/-- Carriage returns in front of all newlines leave carriage returns in the texts of the statements
and change nothing else. -/
theorem parse_crlf (policy : CommentPolicy) {text : String} (h : '\r' ∉ text.toList) :
    (parse policy (String.ofList (crlf text.toList))).map withoutReturns = parse policy text := by
  rcases Outline.readHeader_returned (Line.returned_ofText h) with
    ⟨e, hn, ho⟩ | ⟨className, news, olds, hn, ho, hlines⟩
  · rw [parse_of_error ho, parse_of_error (by rwa [String.toList_ofList])]
    rfl
  · have hfn : Line.Follows .origin ([] ++ news) := Outline.follows_of_readHeader hn
    have hfo : Line.Follows .origin ([] ++ olds) := Outline.follows_of_readHeader ho
    have hmarked := Outline.markerIn_returned hfn hfo .nil hlines
    rw [List.nil_append, List.nil_append] at hmarked
    obtain ⟨hlead, hr, hsections⟩ := Outline.cutAtMarkers_returned hmarked
    rw [parse_of_readHeader ho, parse_of_readHeader (by rwa [String.toList_ofList]),
      Outline.filterMap_eq_of_forall₂ hmarked]
    cases Outline.checkNames [] (olds.filterMap (Outline.markerIn olds)) with
    | error e => rfl
    | ok _ =>
      refine congrArg Except.ok (Outline.toTemplate_returned policy className ?_)
      exact .cons ⟨rfl, rfl, hlead, hr⟩ hsections

theorem parse_crlf_mixed :
    '\r' ∉ "# A\n#b\nSELECT '\n#c\n' -- :p\n, :q;\n--name: d\n/*\n*/1".toList ∧
      (parse .keep (String.ofList
        (crlf "# A\n#b\nSELECT '\n#c\n' -- :p\n, :q;\n--name: d\n/*\n*/1".toList))).map
          withoutReturns = .ok ⟨some "A", [
            ⟨some "b", 3, ⟨"SELECT '\n#c\n' -- :p\n, :q", 0, .fetch⟩,
              ⟨.select, .fetch, ["q"], false⟩⟩,
            ⟨some "d", 8, ⟨"/*\n*/1", 1, .execute⟩, ⟨.other, .execute, [], false⟩⟩]⟩ := by
  have h : '\r' ∉ "# A\n#b\nSELECT '\n#c\n' -- :p\n, :q;\n--name: d\n/*\n*/1".toList := by
    decide +kernel
  exact ⟨h, (parse_crlf .keep h).trans (by decide +kernel)⟩

end Template

end NamedSql
