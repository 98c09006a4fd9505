import NamedSql.Statement
import NamedSql.Proofs.SplitRemoval

namespace NamedSql

namespace Lexeme

theorem semicolon_not_mem_of_mem_parts {ls part : List Lexeme} (h : part ∈ parts ls) :
    .code ';' ∉ part := by
  induction ls using separator_induction (Lexeme.code ';') with
  | last ls hn =>
    rw [parts_of_not_mem hn] at h
    rwa [List.mem_singleton.mp h]
  | cut as bs hn ih =>
    rw [parts_append_semicolon hn] at h
    rcases List.mem_cons.mp h with rfl | h
    · exact hn
    · exact ih h

end Lexeme

theorem statementsOf_singleton {piece : List Char} (h : trim piece ≠ []) :
    statementsOf [piece] = [trim piece] := by
  simp [statementsOf, h]

theorem statementTexts_nil : statementTexts [] = [] := by
  rw [statementTexts, Lexeme.scan_nil]
  rfl

theorem statementTexts_cons_blank {c : Char} (hc : isBlank c) (cs : List Char) :
    statementTexts (c :: cs) = statementTexts cs := by
  rw [← statementTexts_trim, trim_cons_of_blank hc, statementTexts_trim]

/-- A statement is the only statement of its text. -/
theorem statementTexts_of_mem {text t : List Char} (h : t ∈ statementTexts text) :
    statementTexts t = [t] ∧ trim t = t ∧ t ≠ [] := by
  obtain ⟨hm, hne⟩ := List.mem_filter.mp h
  obtain ⟨piece, hp, rfl⟩ := List.mem_map.mp hm
  rw [← Lexeme.map_join_parts] at hp
  obtain ⟨part, hpart, rfl⟩ := List.mem_map.mp hp
  have hs := (Lexeme.scanned_scan none text).of_mem_parts hpart
  have hn : trim (Lexeme.join part) ≠ [] := by simpa using hne
  refine ⟨?_, trim_trim _, hn⟩
  rw [statementTexts_trim, statementTexts, hs.scan_join,
    Lexeme.pieces_of_not_mem (Lexeme.semicolon_not_mem_of_mem_parts hpart),
    statementsOf_singleton hn]

/-- Only the last statement can leave a region open. -/
theorem closed_of_mem_dropLast {text t : List Char} (h : t ∈ (statementTexts text).dropLast) :
    Lexeme.Closed (Lexeme.scan none t) := by
  have hs := Lexeme.scanned_scan none text
  rw [statementTexts] at h
  generalize Lexeme.scan none text = ls at hs h
  induction ls using separator_induction (Lexeme.code ';') with
  | last ls hn =>
    rw [Lexeme.pieces_of_not_mem hn] at h
    by_cases ht : trim (Lexeme.join ls) = []
    · simp [statementsOf, ht] at h
    · simp [statementsOf_singleton ht] at h
  | cut as bs hn ih =>
    obtain ⟨ha, hc, -, hb⟩ := (Lexeme.scanned_append_inert_iff isInert_semicolon).mp hs
    have hb := (Lexeme.scanned_after_inert_iff isInert_semicolon).mp hb
    rw [Lexeme.pieces_append_semicolon, Lexeme.pieces_of_not_mem hn, statementsOf_append] at h
    by_cases ht : trim (Lexeme.join as) = []
    · have he : statementsOf [Lexeme.join as] = [] := by simp [statementsOf, ht]
      rw [he, List.nil_append] at h
      exact ih hb h
    · rw [statementsOf_singleton ht] at h
      cases hrest : statementsOf (Lexeme.pieces bs) with
      | nil => simp [hrest] at h
      | cons u us =>
        rw [hrest, List.singleton_append, List.dropLast_cons_cons] at h
        rcases List.mem_cons.mp h with rfl | h
        · rwa [closed_scan_trim_iff, ha.scan_join]
        · exact ih hb (hrest ▸ h)

/-- Texts that a separator keeps apart are the statements of what they make together. -/
theorem statementTexts_intercalate {sep : List Char} {texts : List (List Char)}
    (whole : ∀ t ∈ texts, statementTexts t = [t])
    (apart : ∀ t ∈ texts.dropLast, ∀ rest, statementTexts (t ++ (sep ++ rest)) =
      statementTexts t ++ statementTexts rest) :
    statementTexts (sep.intercalate texts) = texts := by
  induction texts with
  | nil => exact statementTexts_nil
  | cons t texts ih =>
    have ht := whole t (List.mem_cons_self ..)
    cases texts with
    | nil => rw [List.intercalate_singleton, ht]
    | cons u texts =>
      rw [List.dropLast_cons_cons] at apart
      rw [List.intercalate_cons_cons, List.append_assoc, apart t (List.mem_cons_self ..), ht,
        ih (fun v hv => whole v (List.mem_cons_of_mem t hv))
          fun v hv => apart v (List.mem_cons_of_mem t hv)]
      rfl

/-- With newlines around it a semicolon ends a statement even behind a line comment. -/
theorem statementTexts_intercalate_newlines (text : List Char) :
    statementTexts (['\n', ';', '\n'].intercalate (statementTexts text)) = statementTexts text := by
  refine statementTexts_intercalate (fun t h => (statementTexts_of_mem h).1) fun t h rest => ?_
  rw [← statementTexts_cons_blank (by decide : isBlank '\n') rest]
  exact statementTexts_append_newline_semicolon _ (closed_of_mem_dropLast h)

theorem not_endsInLineComment_of_stripComments (text : List Char) :
    ¬ Lexeme.EndsInLineComment (Lexeme.scan none (stripComments text)) := by
  apply Lexeme.not_endsInLineComment_scan
  intro r hr hk
  have := isComment_of_mem_stripComments (List.mem_of_getLast? hr)
  simp [hk, Region.Kind.isComment] at this

theorem stripComments_of_mem {text t : List Char} (h : t ∈ statementTexts (stripComments text)) :
    ∃ u, t = stripComments u := by
  rw [statementTexts_stripComments] at h
  obtain ⟨u, -, rfl⟩ := List.mem_map.mp (List.mem_filter.mp h).1
  exact ⟨u, rfl⟩

/-- Without comments a semicolon alone is enough. -/
theorem statementTexts_intercalate_semicolon (text : List Char) :
    statementTexts ([';'].intercalate (statementTexts (stripComments text))) =
      statementTexts (stripComments text) := by
  refine statementTexts_intercalate (fun t h => (statementTexts_of_mem h).1) fun t h rest => ?_
  obtain ⟨u, rfl⟩ := stripComments_of_mem (List.dropLast_subset _ h)
  exact statementTexts_append_semicolon rest (closed_of_mem_dropLast h)
    (not_endsInLineComment_of_stripComments u)

namespace Statement

def ofTexts (policy : CommentPolicy) (texts : List (List Char)) : List Statement :=
  texts.zipIdx.map fun (t, i) => ofSource policy i t

/-- The statements with new numbers from zero. -/
def renumber (statements : List Statement) : List Statement :=
  statements.zipIdx.map fun (s, i) => { s with ordinal := i }

/-- Parsing gives the statements back, from their texts put together with the separator, and each
alone from its own text. -/
structure Reparses (policy : CommentPolicy) (separator : String) (statements : List Statement) :
    Prop where
  together : ofScript policy (separator.intercalate (statements.map text)) = statements
  alone : ∀ s ∈ statements, ofScript policy s.text = [{ s with ordinal := 0 }]

theorem ofScript_eq (policy : CommentPolicy) (script : String) :
    ofScript policy script = ofTexts policy (statementTexts script.toList) := by
  rw [statementTexts, Lexeme.pieces_scan, ← map_chars_ofScript .origin, ofTexts, List.zipIdx_map,
    List.map_map]
  rfl

theorem map_text_ofTexts (policy : CommentPolicy) (texts : List (List Char)) :
    (ofTexts policy texts).map (fun s => s.text.toList) = texts.map policy.apply := by
  have ht : (fun s : Statement => s.text.toList) ∘ (fun p => ofSource policy p.2 p.1) =
      policy.apply ∘ Prod.fst := by
    funext p
    exact String.toList_ofList
  rw [ofTexts, List.map_map, ht, ← List.map_map, List.zipIdx_map_fst]

/-- Statements whose texts the policy leaves as they are can be parsed again. -/
theorem reparses_ofTexts {policy : CommentPolicy} (sep : List Char) {texts : List (List Char)}
    (same : ∀ t ∈ texts, policy.apply t = t) (whole : ∀ t ∈ texts, statementTexts t = [t])
    (joined : statementTexts (sep.intercalate texts) = texts) :
    Reparses policy (String.ofList sep) (ofTexts policy texts) := by
  constructor
  · have hm : ((ofTexts policy texts).map text).map String.toList = texts := by
      rw [List.map_map]
      exact (map_text_ofTexts policy texts).trans
        ((List.map_congr_left same).trans (List.map_id texts))
    rw [ofScript_eq, String.toList_intercalate, hm, String.toList_ofList, joined]
  · intro s hs
    obtain ⟨⟨t, i⟩, hp, rfl⟩ := List.mem_map.mp hs
    have ht := List.fst_mem_of_mem_zipIdx hp
    have hx : (ofSource policy i t).text.toList = t := by simp [ofSource, same t ht]
    rw [ofScript_eq, hx, whole t ht]
    rfl

/-- A statement without comments is what its text gives, whatever its number. -/
theorem ofSource_text_of_mem {texts : List (List Char)} {s : Statement}
    (h : s ∈ ofTexts .strip texts) (i : Nat) :
    ofSource .strip i s.text.toList = { s with ordinal := i } := by
  obtain ⟨⟨t, j⟩, -, rfl⟩ := List.mem_map.mp h
  simp [ofSource, CommentPolicy.apply, stripComments_stripComments]

theorem renumber_eq_ofTexts {statements : List Statement}
    (h : ∀ s ∈ statements, ∀ i, ofSource .strip i s.text.toList = { s with ordinal := i }) :
    renumber statements = ofTexts .strip (statements.map fun s => s.text.toList) := by
  rw [renumber, ofTexts, List.zipIdx_map, List.map_map]
  exact List.map_congr_left fun p hp => (h p.1 (List.fst_mem_of_mem_zipIdx hp) p.2).symm

/-- Dropping the empty statements is dropping the texts that are only comments. -/
theorem renumber_filter_ofTexts (texts : List (List Char)) :
    renumber ((ofTexts .strip texts).filter fun s => s.text ≠ "") =
      ofTexts .strip ((texts.map stripComments).filter fun t => !t.isEmpty) := by
  have he : (fun s : Statement => decide (s.text ≠ "")) =
      (fun t => !t.isEmpty) ∘ fun s => s.text.toList := by
    funext s
    rw [Bool.eq_iff_iff]
    simp
  have ht : texts.map stripComments = (ofTexts .strip texts).map fun s => s.text.toList :=
    (map_text_ofTexts .strip texts).symm
  rw [renumber_eq_ofTexts fun s hs => ofSource_text_of_mem (List.mem_filter.mp hs).1, he, ht,
    List.filter_map]

/-- Parsing is a retraction: the statements of a script are those of their texts. Where comments are
removed that holds of the statements that are more than a comment. -/
theorem reparses_ofScript (script : String) :
    Reparses .strip ";" (renumber ((ofScript .strip script).filter fun s => s.text ≠ "")) ∧
      Reparses .keep "\n;\n" (ofScript .keep script) := by
  refine ⟨?_, ?_⟩
  · rw [ofScript_eq, renumber_filter_ofTexts, ← statementTexts_stripComments]
    refine reparses_ofTexts [';'] (fun t h => ?_) (fun t h => (statementTexts_of_mem h).1)
      (statementTexts_intercalate_semicolon _)
    obtain ⟨u, rfl⟩ := stripComments_of_mem h
    exact stripComments_stripComments u
  · rw [ofScript_eq]
    exact reparses_ofTexts ['\n', ';', '\n'] (fun t h => (statementTexts_of_mem h).2.1)
      (fun t h => (statementTexts_of_mem h).1) (statementTexts_intercalate_newlines _)

end Statement

end NamedSql
