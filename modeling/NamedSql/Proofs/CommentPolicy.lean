import NamedSql.Proofs.RegionContent
import NamedSql.Template

namespace NamedSql

/-- Only the identifier characters that a text begins with decide. -/
theorem identifierAt?_takeWhile (cs : List Char) :
    identifierAt? (cs.takeWhile isIdentifierRest) = identifierAt? cs := by
  cases cs with
  | nil => rfl
  | cons c cs =>
    cases hc : isIdentifierRest c with
    | true =>
      have ht := List.takeWhile_cons_of_pos (p := isIdentifierRest) (l := cs) hc
      rw [ht, identifierAt?, identifierAt?, ← ht, List.takeWhile_takeWhile]
      simp
    | false => simp [identifierAt?, hc, not_isIdentifierStart hc]

namespace Lexeme

/-- Behind a line comment no identifier goes on. -/
theorem takeWhile_codeRun_of_lineEnd {ls : List Lexeme} (h : ∀ c ∈ (join ls).head?, c = '\n') :
    (codeRun ls).takeWhile isIdentifierRest = [] := by
  cases ls with
  | nil => rfl
  | cons l ls =>
    cases l with
    | code c =>
      have hc : c = '\n' := h c rfl
      rw [codeRun, List.takeWhile_cons_of_neg (by rw [hc]; decide)]
    | region r => rfl

theorem Scanned.takeWhile_codeRun_strip {before : Option Char} {ls : List Lexeme}
    (h : Scanned before ls) :
    (codeRun (Lexeme.strip ls)).takeWhile isIdentifierRest =
      (codeRun ls).takeWhile isIdentifierRest := by
  induction h with
  | nil => rfl
  | code _ _ ih => rw [strip_code, codeRun, codeRun, List.takeWhile_cons, List.takeWhile_cons, ih]
  | @region _ r ls shape _ released _ ih =>
    rcases r.kind.comment_cases with hk | hk | hk
    · rw [strip_lineComment hk, ih,
        takeWhile_codeRun_of_lineEnd (shape.head?_of_lineComment released hk)]
      rfl
    · rw [strip_blockComment hk, codeRun, List.takeWhile_cons_of_neg (by decide)]
      rfl
    · rw [strip_literal hk]
      rfl

/-- Removing comments leaves the parameters as they are. -/
theorem Scanned.parametersFrom_strip {b : Option Char} {ls : List Lexeme} (h : Scanned b ls)
    (before : Option Char) : parametersFrom before (Lexeme.strip ls) = parametersFrom before ls := by
  induction h generalizing before with
  | nil => rfl
  | @code _ c ls _ rest ih =>
    have hname : identifierAt? (codeRun (Lexeme.strip ls)) = identifierAt? (codeRun ls) := by
      rw [← identifierAt?_takeWhile, rest.takeWhile_codeRun_strip, identifierAt?_takeWhile]
    rw [strip_code, parametersFrom, parametersFrom, ih, hname]
  | @region _ r ls shape _ released _ ih =>
    rcases r.kind.comment_cases with hk | hk | hk
    · rw [strip_lineComment hk, ih, parametersFrom]
      have hn := shape.head?_of_lineComment released hk
      cases ls with
      | nil => rfl
      | cons l ls =>
        cases l with
        | code c =>
          have hc : c ≠ ':' := by
            rw [hn c rfl]
            decide
          rw [parametersFrom_code_of_ne hc, parametersFrom_code_of_ne hc]
        | region r => rfl
    · rw [strip_blockComment hk, parametersFrom_code_of_ne (by decide), ih, parametersFrom]
      exact parametersFrom_congr (by decide) ls
    · rw [strip_literal hk, parametersFrom, ih, parametersFrom]

end Lexeme

theorem parametersOfText_stripComments (text : List Char) :
    parametersOfText (stripComments text) = parametersOfText text := by
  have h := Lexeme.scanned_scan none text
  have hs : Lexeme.Scanned none (Lexeme.strip (Lexeme.scan none text)) := h.strip fun _ => rfl
  rw [stripComments_eq, parametersOfText_trim, ← Lexeme.parametersFrom_scan, hs.scan_join,
    h.parametersFrom_strip, Lexeme.parametersFrom_scan]

theorem statementTokens_stripComments (sql : List Char) :
    statementTokens (stripComments sql) = statementTokens sql := by
  rw [statementTokens, stripComments_stripComments, statementTokens]

/-- The analysis of a statement is that of its text without comments. -/
theorem Analysis.ofStatement_removeComments (sql : String) :
    Analysis.ofStatement (removeComments sql) = Analysis.ofStatement sql := by
  apply Analysis.ofStatement_factorsThrough
  simp only [Function.comp_apply, reading, removeComments, String.toList_ofList,
    statementTokens_stripComments, parametersOfText_stripComments]

namespace Statement

def withoutComments (s : Statement) : Statement :=
  { s with text := removeComments s.text }

theorem ofSource_strip (ordinal : Nat) (sql : List Char) :
    ofSource .strip ordinal sql = (ofSource .keep ordinal sql).withoutComments := by
  simp only [ofSource, CommentPolicy.apply, withoutComments, removeComments, String.toList_ofList,
    Mode.ofStatement, stripComments_trim, statementTokens, stripComments_stripComments]

end Statement

/-- The statement with another text and all else as it was. -/
def NamedStatement.withoutComments (s : NamedStatement) : NamedStatement :=
  { s with statement := s.statement.withoutComments }

def Template.withoutComments (template : Template) : Template :=
  { template with statements := template.statements.map NamedStatement.withoutComments }

theorem NamedStatement.ofExcerpt_strip (ordinal : Nat) (name : Option String) (e : Excerpt) :
    ofExcerpt .strip ordinal name e = (ofExcerpt .keep ordinal name e).withoutComments := by
  simp only [ofExcerpt, withoutComments, Statement.ofSource_strip]
  simp only [Statement.withoutComments, Analysis.ofStatement_removeComments]

theorem Outline.toTemplate_strip (o : Outline) :
    o.toTemplate .strip = (o.toTemplate .keep).withoutComments := by
  simp only [toTemplate, Template.withoutComments, List.map_map]
  refine congrArg _ (List.map_congr_left fun x _ => ?_)
  exact NamedStatement.ofExcerpt_strip x.2 x.1.1 x.1.2

/-- Reading with comments removed is reading with comments kept and then removing them from the texts
of the statements. -/
theorem policy_decides_texts_only :
    (∀ text, Template.parse .strip text =
      (Template.parse .keep text).map Template.withoutComments) ∧
    (∀ script, Statement.ofScript .strip script =
      (Statement.ofScript .keep script).map Statement.withoutComments) ∧
    ∀ sql, Analysis.ofStatement (removeComments sql) = Analysis.ofStatement sql := by
  refine ⟨?_, ?_, Analysis.ofStatement_removeComments⟩
  · intro text
    rw [Template.parse, Template.parse]
    cases Outline.ofText text.toList with
    | error e => rfl
    | ok o => exact congrArg Except.ok o.toTemplate_strip
  · intro script
    rw [Statement.ofScript, Statement.ofScript, List.map_map]
    exact List.map_congr_left fun x _ => Statement.ofSource_strip x.2 x.1.chars

end NamedSql
