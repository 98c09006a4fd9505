import NamedSql.Classification
import NamedSql.Proofs.Nesting

namespace NamedSql

open Token

/-- RETURNING stands among the tokens, outside the parentheses that are opened there. -/
def OuterReturning (ts : List Token) : Prop :=
  ∃ word, Outer ts word ∧ Keyword.isReturning word

/-- Behind a closing parenthesis that matches none in front of it, no other one is opened. -/
def NeverReopens (ts : List Token) : Prop :=
  ∀ front back, ts = front ++ .closeParen :: back → Settled front → .openParen ∉ back

variable {ts : List Token}

theorem outerReturning_iff : OuterReturning ts ↔ (outerWords 0 ts).any Keyword.isReturning := by
  simp only [OuterReturning, outer_iff, List.any_eq_true]

instance : Decidable (OuterReturning ts) :=
  decidable_of_iff _ outerReturning_iff.symm

theorem neverReopens_iff : NeverReopens ts ↔ ∀ n < ts.length, ts[n]? = some .closeParen →
    Settled (ts.take n) → .openParen ∉ ts.drop (n + 1) := by
  constructor
  · intro h n hn ht settled
    apply h _ _ _ settled
    rw [List.getElem?_eq_getElem hn, Option.some.injEq] at ht
    rw [← ht, List.getElem_cons_drop, List.take_append_drop]
  · rintro h front back rfl settled
    have hclose := h front.length (by simp) (by simp) (by simpa using settled)
    simpa using hclose

instance : Decidable (NeverReopens ts) :=
  decidable_of_iff _ neverReopens_iff.symm

/-- What counts is where no more parentheses were opened than closed. -/
theorem hasReturningAt_iff {depth : Int} : hasReturningAt depth ts ↔
    ∃ word, Keyword.isReturning word ∧ ∃ front, WordAt ts front word ∧
      depth + front.count .openParen ≤ front.count .closeParen := by
  induction ts generalizing depth with
  | nil => simp [hasReturningAt, not_wordAt_nil]
  | cons t ts ih =>
    simp only [exists_wordAt_cons, and_or_left, exists_or]
    cases t with
    | openParen =>
      have hd (front : List Token) :
          depth + (.openParen :: front).count .openParen ≤ (.openParen :: front).count .closeParen ↔
            depth + 1 + front.count .openParen ≤ front.count .closeParen := by
        rw [List.count_cons_self, List.count_cons_of_ne (by simp)]
        omega
      simp only [hasReturningAt, ih, hd]
      simp
    | closeParen =>
      have hd (front : List Token) :
          depth + (.closeParen :: front).count .openParen ≤
              (.closeParen :: front).count .closeParen ↔
            depth - 1 + front.count .openParen ≤ front.count .closeParen := by
        rw [List.count_cons_self, List.count_cons_of_ne (by simp)]
        omega
      simp only [hasReturningAt, ih, hd]
      simp
    | other => simp [hasReturningAt, ih]
    | word word =>
      simp only [hasReturningAt, Bool.or_eq_true, Bool.and_eq_true, decide_eq_true_eq, ih]
      apply or_congr
      · constructor
        · rintro ⟨hd, hr⟩
          exact ⟨word, hr, rfl, by simpa using hd⟩
        · rintro ⟨_, hr, he, hd⟩
          obtain rfl := Token.word.inj he
          exact ⟨by simpa using hd, hr⟩
      · simp

/-- Where no parenthesis is opened again, the two ways of counting agree. -/
theorem foldl_depthAfter_eq (depth : Nat) (h : ∀ front back, ts = front ++ .closeParen :: back →
    front.foldl depthAfter depth = 0 → .openParen ∉ back) :
    ts.foldl depthAfter depth = depth + ts.count .openParen - ts.count .closeParen := by
  induction ts generalizing depth with
  | nil => simp
  | cons t ts ih =>
    have hts := ih (depthAfter depth t) fun front back he hd =>
      h (t :: front) back (congrArg (List.cons t) he) hd
    rw [List.foldl_cons, hts]
    cases t with
    | openParen =>
      rw [List.count_cons_self, List.count_cons_of_ne (by simp), depthAfter]
      omega
    | closeParen =>
      cases depth with
      | zero =>
        have hn := h [] ts rfl rfl
        simp [depthAfter, List.count_eq_zero.mpr hn]
      | succ depth =>
        rw [List.count_cons_self, List.count_cons_of_ne (by simp), depthAfter]
        omega
    | other => simp [depthAfter]
    | word word => simp [depthAfter]

theorem NeverReopens.settled_of_count_le (h : NeverReopens ts)
    (hc : ts.count .openParen ≤ ts.count .closeParen) : Settled ts := by
  have hf := foldl_depthAfter_eq 0 fun front back he hd =>
    h front back he (settled_iff.mpr hd)
  apply settled_iff.mpr
  omega

theorem NeverReopens.of_append {front back : List Token} (h : NeverReopens (front ++ back)) :
    NeverReopens front := by
  rintro left right rfl settled hm
  exact h left (right ++ back) (by simp) settled (List.mem_append_left _ hm)

theorem OuterReturning.hasReturningAt (h : OuterReturning ts) : hasReturningAt 0 ts := by
  obtain ⟨word, ⟨front, hw, settled⟩, hr⟩ := h
  refine hasReturningAt_iff.mpr ⟨word, hr, front, hw, ?_⟩
  have := settled.count_le.1
  omega

theorem NeverReopens.outerReturning (h : NeverReopens ts) (hr : hasReturningAt 0 ts) :
    OuterReturning ts := by
  obtain ⟨word, hr, front, hw, hc⟩ := hasReturningAt_iff.mp hr
  refine ⟨word, ⟨front, hw, ?_⟩, hr⟩
  obtain ⟨back, rfl⟩ := hw
  apply h.of_append.settled_of_count_le
  omega

theorem hasReturning_iff {sql : String} : hasReturning sql ↔
    ∃ found ∈ mainVerb? (statementTokens sql.toList), hasReturningAt 0 found.2 :=
  Option.any_eq_true _ _

/-- RETURNING counts where it stands outside the parentheses opened behind the main verb, and there
only as long as none is opened again behind one that matches none of them. -/
theorem hasReturning_outside (sql : String) :
    ((∃ found ∈ mainVerb? (statementTokens sql.toList), OuterReturning found.2) →
      hasReturning sql) ∧
    ((∀ found ∈ mainVerb? (statementTokens sql.toList), NeverReopens found.2) →
      (hasReturning sql ↔
        ∃ found ∈ mainVerb? (statementTokens sql.toList), OuterReturning found.2)) := by
  rw [hasReturning_iff]
  constructor
  · rintro ⟨found, hf, ho⟩
    exact ⟨found, hf, ho.hasReturningAt⟩
  · intro hn
    constructor
    · rintro ⟨found, hf, ha⟩
      exact ⟨found, hf, (hn found hf).outerReturning ha⟩
    · rintro ⟨found, hf, ho⟩
      exact ⟨found, hf, ho.hasReturningAt⟩

theorem hasReturning_outside_parenthesized :
    (∀ found ∈ mainVerb? (statementTokens "(INSERT INTO t VALUES (f(1)) RETURNING id)".toList),
      NeverReopens found.2) ∧
    ∃ found ∈ mainVerb? (statementTokens "(INSERT INTO t VALUES (f(1)) RETURNING id)".toList),
      OuterReturning found.2 := by
  have hn : ∀ found ∈ mainVerb? (statementTokens
      "(INSERT INTO t VALUES (f(1)) RETURNING id)".toList), NeverReopens found.2 := by
    decide +kernel
  refine ⟨hn, ((hasReturning_outside _).2 hn).mp ?_⟩
  decide +kernel

/-- What the second operand of a parenthesized UNION calls RETURNING counts, although it stands in
parentheses. -/
theorem hasReturning_reopened :
    ¬ (hasReturning "(SELECT id FROM t) UNION (SELECT id AS returning FROM u)" ↔
      ∃ found ∈ mainVerb? (statementTokens
        "(SELECT id FROM t) UNION (SELECT id AS returning FROM u)".toList),
        OuterReturning found.2) := by
  decide +kernel

end NamedSql
