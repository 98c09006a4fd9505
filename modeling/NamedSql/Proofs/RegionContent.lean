import NamedSql.Classification
import NamedSql.Proofs.ParameterRuns

namespace NamedSql

namespace Region

/-- The kind with the tag of a dollar-quoted block left out. -/
def Kind.untagged : Kind → Kind
  | .dollarQuoted _ => .dollarQuoted []
  | kind => kind

/-- The region without its content. -/
def shell (r : Region) : Region :=
  ⟨r.kind.untagged, [], r.terminated⟩

@[simp] theorem Kind.isComment_untagged (kind : Kind) :
    kind.untagged.isComment = kind.isComment := by
  cases kind <;> rfl

theorem Kind.untagged_eq_lineComment_iff {kind : Kind} :
    kind.untagged = .lineComment ↔ kind = .lineComment := by
  cases kind <;> simp [untagged]

theorem Kind.untagged_eq_blockComment_iff {kind : Kind} :
    kind.untagged = .blockComment ↔ kind = .blockComment := by
  cases kind <;> simp [untagged]

theorem shell_trimOpen (r : Region) : r.trimOpen.shell = r.shell := by
  simp [shell]

theorem trimOpen_shell (r : Region) : r.shell.trimOpen = r.shell := by
  unfold trimOpen
  split <;> rfl

end Region

namespace Lexeme

def shell : Lexeme → Lexeme
  | .code c => .code c
  | .region r => .region r.shell

@[simp] theorem shell_code (c : Char) : shell (.code c) = .code c := rfl

@[simp] theorem shell_region (r : Region) : shell (.region r) = .region r.shell := rfl

theorem shell_eq_code_iff {l : Lexeme} {c : Char} : l.shell = .code c ↔ l = .code c := by
  cases l <;> simp

theorem parts_map_shell (ls : List Lexeme) :
    parts (ls.map shell) = (parts ls).map (List.map shell) := by
  have hm (as : List Lexeme) : .code ';' ∈ as.map shell ↔ .code ';' ∈ as := by
    simp [List.mem_map, shell_eq_code_iff]
  induction ls using separator_induction (Lexeme.code ';') with
  | last ls h => rw [parts_of_not_mem h, parts_of_not_mem (mt (hm ls).mp h), List.map_singleton]
  | cut as bs h ih =>
    rw [List.map_append, List.map_cons, shell_code, parts_append_semicolon (mt (hm as).mp h),
      parts_append_semicolon h, ih, List.map_cons]

theorem strip_map_shell (ls : List Lexeme) : strip (ls.map shell) = (strip ls).map shell := by
  induction ls with
  | nil => rfl
  | cons l ls ih =>
    rw [List.map_cons]
    cases l with
    | code c => rw [shell_code, strip_code, strip_code, ih, List.map_cons, shell_code]
    | region r =>
      rw [shell_region]
      rcases r.kind.comment_cases with hk | hk | hk
      · rw [strip_lineComment hk,
          strip_lineComment (Region.Kind.untagged_eq_lineComment_iff.mpr hk), ih]
      · rw [strip_blockComment hk,
          strip_blockComment (Region.Kind.untagged_eq_blockComment_iff.mpr hk), ih, List.map_cons,
          shell_code]
      · rw [strip_literal hk, strip_literal ((Region.Kind.isComment_untagged _).trans hk), ih,
          List.map_cons, shell_region]

theorem trimStart_map_shell (ls : List Lexeme) :
    trimStart (ls.map shell) = (trimStart ls).map shell := by
  fun_induction trimStart ls with
  | case1 c ls hc ih => rw [List.map_cons, shell_code, trimStart, if_pos hc, ih]
  | case2 c ls hc => rw [List.map_cons, shell_code, trimStart, if_neg hc]
  | case3 ls h =>
    cases ls with
    | nil => rfl
    | cons l ls =>
      cases l with
      | code c => exact absurd rfl (h c ls)
      | region r => rfl

theorem trimEnd_map_shell (ls : List Lexeme) : trimEnd (ls.map shell) = (trimEnd ls).map shell := by
  induction ls with
  | nil => rfl
  | cons l ls ih =>
    cases l with
    | code c =>
      rw [List.map_cons, shell_code, trimEnd, trimEnd, ih, List.isEmpty_map]
      split <;> rfl
    | region r =>
      rw [List.map_cons, shell_region, trimEnd, trimEnd, ih, Region.trimOpen_shell, List.map_cons,
        shell_region, Region.shell_trimOpen]

theorem tokens_map_shell (ls : List Lexeme) : tokens (ls.map shell) = tokens ls := by
  induction ls with
  | nil => rfl
  | cons l ls ih =>
    cases l with
    | code c =>
      have hs : startsWord (ls.map shell) = startsWord ls := by
        cases ls with
        | nil => rfl
        | cons l ls => cases l <;> rfl
      rw [List.map_cons, shell_code, tokens_code, tokens_code, ih, hs]
    | region r =>
      rw [List.map_cons, shell_region, tokens_region, tokens_region, ih, Token.ofSegment,
        Token.ofSegment, Region.shell, Region.Kind.isComment_untagged]

theorem codeRun_map_shell (ls : List Lexeme) : codeRun (ls.map shell) = codeRun ls := by
  induction ls with
  | nil => rfl
  | cons l ls ih =>
    cases l with
    | code c => rw [List.map_cons, shell_code, codeRun, codeRun, ih]
    | region r => rfl

theorem parametersFrom_map_shell (ls : List Lexeme) (before : Option Char) :
    parametersFrom before (ls.map shell) = parametersFrom before ls := by
  induction ls generalizing before with
  | nil => rfl
  | cons l ls ih =>
    cases l with
    | code c => simp only [List.map_cons, shell_code, parametersFrom, ih, codeRun_map_shell]
    | region r => exact ih none

/-- Whether there is more in the list than blanks. -/
def visible (ls : List Lexeme) : Bool :=
  ls.any fun
    | .code c => !isBlank c
    | .region _ => true

theorem Scanned.trim_join_isEmpty {before : Option Char} {ls : List Lexeme}
    (h : Scanned before ls) : (!(trim (join ls)).isEmpty) = visible ls := by
  rw [Bool.eq_iff_iff, Bool.not_eq_true', ← Bool.not_eq_true, List.isEmpty_iff, trim_eq_nil_iff]
  induction h with
  | nil => simp [visible]
  | @code _ c ls _ _ ih =>
    rw [join_cons, text, List.singleton_append, List.forall_mem_cons,
      Decidable.not_and_iff_not_or_not, ih]
    simp [visible]
  | @region _ r ls shape _ _ _ _ =>
    obtain ⟨c, cs, hr, hc, -⟩ := shape.exists_text_cons
    simp [visible, text, hr, hc]

theorem visible_map_shell (ls : List Lexeme) : visible (ls.map shell) = visible ls := by
  rw [visible, visible, List.any_map]
  congr 1
  funext l
  cases l <;> rfl

/-- What the analysis of a statement reads of its scan. -/
def reading (ls : List Lexeme) : List Token × List (List Char) :=
  (tokens (trimEnd (trimStart (strip ls))), (parametersFrom none ls).eraseDups)

theorem reading_map_shell (ls : List Lexeme) : reading (ls.map shell) = reading ls := by
  rw [reading, strip_map_shell, trimStart_map_shell, trimEnd_map_shell, tokens_map_shell,
    parametersFrom_map_shell, reading]

theorem TakesUp.parametersFrom_eq {c : Char} {old new : List Lexeme} (h : TakesUp c old new)
    (hc : isBlank c) : parametersFrom none new = parametersFrom none old := by
  cases h with
  | code =>
    have hr := isIdentifierRest_of_isInert (isInert_of_isBlank hc)
    exact parametersFrom_concat hr (ne_of_isBlank hc rfl) _ none
  | @region front r chars =>
    have hs : (front ++ [Lexeme.region (r.withText chars)]).map shell =
        (front ++ [Lexeme.region r]).map shell := by
      simp [Region.shell]
    rw [← parametersFrom_map_shell, ← hs, parametersFrom_map_shell]

end Lexeme

/-- Blanks at the ends of a text are in no parameter. -/
theorem parametersOfText_trim (text : List Char) :
    parametersOfText (trim text) = parametersOfText text := by
  rw [← Lexeme.parametersFrom_scan, ← Lexeme.parametersFrom_scan]
  refine congrArg _ (Lexeme.scan_trim_eq (f := Lexeme.parametersFrom none) ?_ ?_ text)
  · intro c ls hc
    have hn : c ≠ ':' := ne_of_isBlank hc rfl
    rw [Lexeme.parametersFrom_code_of_ne hn]
    exact Lexeme.parametersFrom_congr (by simpa using hn) ls
  · intro c old new hc h
    exact h.parametersFrom_eq hc

/-- What the analysis of a statement reads of its text. -/
def reading (sql : List Char) : List Token × List (List Char) :=
  (statementTokens sql, parametersOfText sql)

namespace Lexeme

theorem Scanned.reading_trim_join {ls : List Lexeme} (h : Scanned none ls) :
    NamedSql.reading (trim (join ls)) = reading ls := by
  rw [NamedSql.reading, reading, statementTokens, stripComments_trim, parametersOfText_trim,
    ← tokens_scan, scan_stripComments, ← parametersFrom_scan, h.scan_join]

theorem Scanned.map_reading {ls : List Lexeme} (h : Scanned none ls) :
    (statementsOf (pieces ls)).map NamedSql.reading =
      ((parts (ls.map shell)).filter visible).map reading := by
  have hv (part : List Lexeme) (hp : part ∈ parts ls) :
      ((fun chars => !chars.isEmpty) ∘ trim ∘ join) part = (visible ∘ List.map shell) part :=
    (h.of_mem_parts hp).trim_join_isEmpty.trans (visible_map_shell part).symm
  have hr (part : List Lexeme) (hp : part ∈ (parts ls).filter (visible ∘ List.map shell)) :
      (NamedSql.reading ∘ trim ∘ join) part = (reading ∘ List.map shell) part :=
    (h.of_mem_parts (List.mem_filter.mp hp).1).reading_trim_join.trans (reading_map_shell part).symm
  rw [← map_join_parts, statementsOf, List.map_map, List.filter_map, List.map_map,
    List.filter_congr hv, List.map_congr_left hr, ← List.map_map, ← List.filter_map,
    ← parts_map_shell]

end Lexeme

theorem Analysis.ofStatement_factorsThrough :
    Analysis.ofStatement.FactorsThrough (reading ∘ String.toList) := by
  intro a b h
  obtain ⟨ht, hp⟩ := Prod.mk.inj h
  simp only [ofStatement, leadingWordOfStatement?, Mode.ofStatement, NamedSql.parameters, ht, hp]

theorem leadingWord_factorsThrough : leadingWord.FactorsThrough (reading ∘ String.toList) := by
  intro a b h
  obtain ⟨ht, -⟩ := Prod.mk.inj h
  simp only [leadingWord, leadingWordOfStatement?, ht]

/-- What is known of a statement by its reading is known of each statement by the shell of the
script. -/
theorem map_splitStatements_eq_of_shell {α : Type} [Nonempty α] {f : String → α}
    (hf : f.FactorsThrough (reading ∘ String.toList)) {a b : String}
    (h : (Lexeme.scan none a.toList).map Lexeme.shell =
      (Lexeme.scan none b.toList).map Lexeme.shell) :
    (splitStatements a).map f = (splitStatements b).map f := by
  have hr (script : String) : (splitStatements script).map (reading ∘ String.toList) =
      (statementTexts script.toList).map reading := by
    rw [splitStatements_eq, List.map_map]
    exact List.map_congr_left fun sql _ => congrArg reading String.toList_ofList
  have hm : (splitStatements a).map (reading ∘ String.toList) =
      (splitStatements b).map (reading ∘ String.toList) := by
    rw [hr, hr, statementTexts, statementTexts, (Lexeme.scanned_scan none _).map_reading,
      (Lexeme.scanned_scan none _).map_reading, h]
  obtain ⟨e, rfl⟩ := (Function.factorsThrough_iff f).mp hf
  simpa only [List.map_map] using congrArg (List.map e) hm

end NamedSql
