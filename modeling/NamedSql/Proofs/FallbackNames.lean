import Mathlib.Data.List.Induction
import NamedSql.Proofs.FreeNames

namespace NamedSql.Manifest

/-- The names that statements are given. -/
def given (statements : List NamedStatement) : List String :=
  statements.filterMap NamedStatement.name

/-- The names that entries got because their statements have none. -/
def fallbacks (pairs : List (NamedStatement × Entry)) : List String :=
  pairs.filterMap fun (s, e) => if s.name.isNone then some e.name else none

/-- There is an entry for each statement, with the name of the statement or with the first variant
of its fallback name that is free when its turn comes. -/
structure NamedInTurn (statements : List NamedStatement) (entries : List Entry) : Prop where
  content : List.Forall₂ (fun s e => e = .ofStatement (s.name.getD e.name) s) statements entries
  first : ∀ front s e back, statements.zip entries = front ++ (s, e) :: back → s.name = none →
    IsFirstFree (given statements ++ fallbacks front) (fallbackName s.statement.ordinal) e.name
  ends : ∀ front s e back, statements.zip entries = front ++ (s, e) :: back → s.name = none →
    ∀ found, Search (given statements ++ fallbacks front) (fallbackName s.statement.ordinal)
      (fallbackName s.statement.ordinal) 2 found ↔ found = e.name
  distinct : (fallbacks (statements.zip entries)).Nodup
  apart : ∀ name ∈ fallbacks (statements.zip entries), name ∉ given statements

variable {taken : List String} {statements : List NamedStatement} {entries : List Entry}
  {front back pairs : List (NamedStatement × Entry)} {s : NamedStatement} {e : Entry}

@[simp] theorem fallbacks_cons_some {name : String} (h : s.name = some name) :
    fallbacks ((s, e) :: pairs) = fallbacks pairs := by
  simp [fallbacks, h]

@[simp] theorem fallbacks_cons_none (h : s.name = none) :
    fallbacks ((s, e) :: pairs) = e.name :: fallbacks pairs := by
  simp [fallbacks, h]

@[simp] theorem fallbacks_nil : fallbacks [] = [] := rfl

theorem fallbacks_append : fallbacks (front ++ back) = fallbacks front ++ fallbacks back :=
  List.filterMap_append

/-- When its turn comes, the names that statements in front have got are taken too. -/
theorem name_of_zip_entriesOf
    (h : statements.zip (entriesOf taken statements) = front ++ (s, e) :: back)
    (hn : s.name = none) :
    e.name = freeName ((fallbacks front).reverse ++ taken) (fallbackName s.statement.ordinal) := by
  induction statements generalizing taken front with
  | nil => simp at h
  | cons t rest ih =>
    rw [entriesOf] at h
    cases ht : t.name with
    | some name =>
      rw [ht] at h
      cases front with
      | nil =>
        obtain ⟨hte, -⟩ := List.cons.inj h
        cases hte
        rw [hn] at ht
        cases ht
      | cons p front =>
        obtain ⟨rfl, hrest⟩ := List.cons.inj h
        rw [fallbacks_cons_some ht]
        exact ih hrest
    | none =>
      rw [ht] at h
      cases front with
      | nil =>
        obtain ⟨hte, -⟩ := List.cons.inj h
        cases hte
        rfl
      | cons p front =>
        obtain ⟨rfl, hrest⟩ := List.cons.inj h
        rw [fallbacks_cons_none ht, List.reverse_cons, List.append_assoc]
        exact ih hrest

/-- A statement is given a name, or its entry gets one. -/
theorem length_given_add_fallbacks (h : statements.length = entries.length) :
    (given statements).length + (fallbacks (statements.zip entries)).length = statements.length := by
  induction statements generalizing entries with
  | nil => rfl
  | cons s rest ih =>
    cases entries with
    | nil => cases h
    | cons e entries =>
      have hrest := ih (Nat.succ.inj h)
      cases hn : s.name with
      | some name =>
        rw [List.zip_cons_cons, fallbacks_cons_some hn, given, List.filterMap_cons_some hn]
        simp only [given, List.length_cons] at hrest ⊢
        omega
      | none =>
        rw [List.zip_cons_cons, fallbacks_cons_none hn, given, List.filterMap_cons_none hn]
        simp only [given, List.length_cons] at hrest ⊢
        omega

/-- Names that are new when their turn comes are different. -/
theorem nodup_fallbacks (h : ∀ front s e back, pairs = front ++ (s, e) :: back → s.name = none →
    e.name ∉ fallbacks front) : (fallbacks pairs).Nodup := by
  induction pairs using List.reverseRecOn with
  | nil => exact .nil
  | append_singleton pairs last ih =>
    obtain ⟨s, e⟩ := last
    have hpairs : (fallbacks pairs).Nodup := by
      refine ih fun front s' e' back hs hn => h front s' e' (back ++ [(s, e)]) ?_ hn
      rw [hs, List.append_assoc, List.cons_append]
    rw [fallbacks_append]
    cases hn : s.name with
    | some name => rwa [fallbacks_cons_some hn, fallbacks_nil, List.append_nil]
    | none =>
      rw [fallbacks_cons_none hn, fallbacks_nil, ← List.concat_eq_append]
      exact hpairs.concat (h pairs s e [] rfl hn)

/-- The entries of a template are named in turn. -/
theorem namedInTurn_ofTemplate {template : Template} (h : template.statements.length < 2 ^ 31)
    (source stem : String) :
    NamedInTurn template.statements (ofTemplate template source stem).entries := by
  have hfirst : ∀ front s e back, template.statements.zip (ofTemplate template source stem).entries =
      front ++ (s, e) :: back → s.name = none → IsFirstFree
        (given template.statements ++ fallbacks front) (fallbackName s.statement.ordinal) e.name := by
    intro front s e back hs hn
    rw [name_of_zip_entriesOf hs hn]
    refine (isFirstFree_freeName _ _).congr fun x => ?_
    rw [List.mem_append, List.mem_append, List.mem_reverse, or_comm]
    rfl
  refine ⟨forall₂_ofStatement_entriesOf _ _, hfirst, fun front s e back hs hn found => ?_, ?_, ?_⟩
  · have hlength := length_given_add_fallbacks
      (length_entries_ofTemplate template source stem).symm
    rw [hs, fallbacks_append, fallbacks_cons_none hn] at hlength
    refine search_iff (hfirst front s e back hs hn) ?_
    simp only [List.length_append, List.length_cons] at hlength ⊢
    omega
  · refine nodup_fallbacks fun front s e back hs hn hm => ?_
    exact (hfirst front s e back hs hn).not_mem (List.mem_append_right _ hm)
  · intro name hm hg
    obtain ⟨⟨s, e⟩, hse, hname⟩ := List.mem_filterMap.mp hm
    obtain ⟨hn, he⟩ := Option.ite_none_right_eq_some.mp hname
    obtain ⟨front, back, hs⟩ := List.append_of_mem hse
    rw [← Option.some.inj he] at hg
    exact (hfirst front s e back hs (Option.isNone_iff_eq_none.mp hn)).not_mem
      (List.mem_append_left _ hg)

theorem namedInTurn_ofTemplate_repeated :
    ∃ template : Template, template.statements.length < 2 ^ 31 ∧
      NamedInTurn template.statements (ofTemplate template "d.sql" "d").entries ∧
      (ofTemplate template "d.sql" "d").entries.map Entry.name =
        ["statement_1_3", "statement_1", "statement_1_4", "statement_1_2", "statement_1"] := by
  let unnamed : NamedStatement := ⟨none, 3, ⟨"1", 1, .execute⟩, ⟨.other, .execute, [], false⟩⟩
  let named (name : String) : NamedStatement := { unnamed with name := some name }
  let template : Template :=
    ⟨none, [unnamed, named "statement_1", unnamed, named "statement_1_2", named "statement_1"]⟩
  exact ⟨template, by decide, namedInTurn_ofTemplate (by decide) "d.sql" "d", by decide +kernel⟩

end NamedSql.Manifest
