import NamedSql.Proofs.BlankEnds

namespace NamedSql

namespace Lexeme

theorem semicolon_mem_strip_iff {ls : List Lexeme} : .code ';' ∈ strip ls ↔ .code ';' ∈ ls := by
  induction ls with
  | nil => rfl
  | cons l ls ih =>
    cases l with
    | code c => simp [ih]
    | region r =>
      rcases r.kind.comment_cases with hk | hk | hk
      · simp [strip_lineComment hk, ih]
      · simp [strip_blockComment hk, ih]
      · simp [strip_literal hk, ih]

theorem parts_strip (ls : List Lexeme) : parts (strip ls) = (parts ls).map strip := by
  induction ls using separator_induction (Lexeme.code ';') with
  | last ls h =>
    rw [parts_of_not_mem h, parts_of_not_mem (mt semicolon_mem_strip_iff.mp h), List.map_singleton]
  | cut as bs h ih =>
    rw [strip_append, strip_code, parts_append_semicolon (mt semicolon_mem_strip_iff.mp h),
      parts_append_semicolon h, ih, List.map_cons]

end Lexeme

theorem stripComments_of_scanned {ls : List Lexeme} (h : Lexeme.Scanned none ls) :
    stripComments (Lexeme.join ls) = trim (Lexeme.join (Lexeme.strip ls)) := by
  rw [stripComments_eq, h.scan_join]

/-- A blank piece has nothing left without its comments. -/
theorem filter_map_stripComments (ps : List (List Char)) :
    ((statementsOf ps).map stripComments).filter (fun chars => !chars.isEmpty) =
      (ps.map stripComments).filter fun chars => !chars.isEmpty := by
  induction ps with
  | nil => rfl
  | cons piece ps ih =>
    rw [← List.singleton_append, statementsOf_append, List.map_append, List.filter_append, ih,
      List.map_append, List.filter_append]
    congr 1
    cases ht : trim piece with
    | nil =>
      have he : stripComments piece = [] := by
        rw [← stripComments_trim, ht, stripComments_eq, Lexeme.scan_nil]
        rfl
      simp [statementsOf, ht, he]
    | cons c cs => simp [statementsOf, ht, ← stripComments_trim piece]

theorem statementsOf_pieces_strip {ls : List Lexeme} (h : Lexeme.Scanned none ls) :
    statementsOf (Lexeme.pieces (Lexeme.strip ls)) =
      ((statementsOf (Lexeme.pieces ls)).map stripComments).filter fun chars => !chars.isEmpty := by
  have hp : ∀ part ∈ Lexeme.parts ls,
      trim (Lexeme.join (Lexeme.strip part)) = stripComments (Lexeme.join part) :=
    fun part hm => (stripComments_of_scanned (h.of_mem_parts hm)).symm
  rw [filter_map_stripComments, ← Lexeme.map_join_parts, ← Lexeme.map_join_parts,
    Lexeme.parts_strip, statementsOf, List.map_map, List.map_map, List.map_map]
  exact congrArg _ (List.map_congr_left hp)

theorem statementTexts_stripComments (text : List Char) :
    statementTexts (stripComments text) =
      ((statementTexts text).map stripComments).filter fun chars => !chars.isEmpty := by
  have hs := Lexeme.scanned_scan none text
  have hstrip : Lexeme.Scanned none (Lexeme.strip (Lexeme.scan none text)) := hs.strip fun _ => rfl
  calc statementTexts (stripComments text)
      = statementTexts (Lexeme.join (Lexeme.strip (Lexeme.scan none text))) := by
        rw [stripComments_eq, statementTexts_trim]
    _ = statementsOf (Lexeme.pieces (Lexeme.strip (Lexeme.scan none text))) := by
        rw [statementTexts, hstrip.scan_join]
    _ = ((statementTexts text).map stripComments).filter fun chars => !chars.isEmpty :=
        statementsOf_pieces_strip hs

/-- Removing comments from a script and then splitting it is splitting it and then removing comments
from the statements, but for those that were only comments. -/
theorem splitStatements_removeComments (script : String) :
    splitStatements (removeComments script) =
      ((splitStatements script).map removeComments).filter fun sql => sql ≠ "" := by
  have hr : removeComments ∘ String.ofList = String.ofList ∘ stripComments := by
    funext chars
    simp [removeComments]
  have he : (fun sql : String => decide (sql ≠ "")) ∘ String.ofList =
      fun chars => !chars.isEmpty := by
    funext chars
    cases chars <;> simp
  rw [splitStatements_eq, splitStatements_eq, removeComments, String.toList_ofList,
    statementTexts_stripComments, List.map_map, hr, ← List.map_map, ← he, ← List.filter_map]

end NamedSql
