import Mathlib.Logic.Basic
import NamedSql.Token

namespace NamedSql.Token

/-- Each parenthesis is closed again, and none is closed that was not opened. -/
inductive Balanced : List Token → Prop
  | nil : Balanced []
  | cons {t : Token} {ts : List Token} (opens : t ≠ .openParen) (closes : t ≠ .closeParen)
      (rest : Balanced ts) : Balanced (t :: ts)
  | nest {inner rest : List Token} (inside : Balanced inner) (behind : Balanced rest) :
      Balanced (.openParen :: (inner ++ .closeParen :: rest))

/-- Each parenthesis is closed again. Closing ones that match none of them are passed over. -/
inductive Settled : List Token → Prop
  | nil : Settled []
  | cons {t : Token} {ts : List Token} (opens : t ≠ .openParen) (rest : Settled ts) :
      Settled (t :: ts)
  | nest {inner rest : List Token} (inside : Balanced inner) (behind : Settled rest) :
      Settled (.openParen :: (inner ++ .closeParen :: rest))

/-- The word stands in the list right behind `front`. -/
def WordAt (ts front : List Token) (chars : List Char) : Prop :=
  ∃ back, ts = front ++ .word chars :: back

/-- The word stands in the list, and each parenthesis opened in front of it is closed there. -/
def Outer (ts : List Token) (chars : List Char) : Prop :=
  ∃ front, WordAt ts front chars ∧ Settled front

/-- How many parentheses are open behind the token when `depth` are open in front of it. A closing
one too many is ignored. -/
def depthAfter (depth : Nat) : Token → Nat
  | .openParen => depth + 1
  | .closeParen => depth - 1
  | _ => depth

/-- The words outside parentheses when `depth` are open in front of the list. -/
def outerWords (depth : Nat) : List Token → List (List Char)
  | [] => []
  | .word chars :: ts => if depth = 0 then chars :: outerWords depth ts else outerWords depth ts
  | t :: ts => outerWords (depthAfter depth t) ts

variable {ts : List Token} {chars : List Char}

theorem depthAfter_eq {t : Token} (opens : t ≠ .openParen) (closes : t ≠ .closeParen)
    (depth : Nat) : depthAfter depth t = depth := by
  cases t with
  | openParen => exact absurd rfl opens
  | closeParen => exact absurd rfl closes
  | word => rfl
  | other => rfl

theorem depthAfter_zero {t : Token} (opens : t ≠ .openParen) : depthAfter 0 t = 0 := by
  by_cases closes : t = .closeParen
  · subst closes
    rfl
  · exact depthAfter_eq opens closes 0

theorem Balanced.foldl_depthAfter (h : Balanced ts) (depth : Nat) :
    ts.foldl depthAfter depth = depth := by
  induction h generalizing depth with
  | nil => rfl
  | cons opens closes _ ih => rw [List.foldl_cons, depthAfter_eq opens closes, ih]
  | nest _ _ inside behind =>
    rw [List.foldl_cons, List.foldl_append, inside, List.foldl_cons]
    exact behind depth

theorem Settled.foldl_depthAfter (h : Settled ts) : ts.foldl depthAfter 0 = 0 := by
  induction h with
  | nil => rfl
  | cons opens _ ih => rw [List.foldl_cons, depthAfter_zero opens, ih]
  | nest inside _ behind =>
    rw [List.foldl_cons, List.foldl_append, inside.foldl_depthAfter, List.foldl_cons]
    exact behind

/-- The list closes `depth` parentheses that were open in front of it, and then is settled. -/
def Closes : Nat → List Token → Prop
  | 0, ts => Settled ts
  | depth + 1, ts => ∃ inner rest, ts = inner ++ .closeParen :: rest ∧ Balanced inner ∧
      Closes depth rest

theorem Closes.cons {t : Token} (opens : t ≠ .openParen) (closes : t ≠ .closeParen) {depth : Nat}
    (h : Closes depth ts) : Closes depth (t :: ts) := by
  cases depth with
  | zero => exact Settled.cons opens h
  | succ depth =>
    obtain ⟨inner, rest, rfl, inside, behind⟩ := h
    exact ⟨t :: inner, rest, rfl, .cons opens closes inside, behind⟩

theorem Closes.openParen {depth : Nat} (h : Closes (depth + 1) ts) :
    Closes depth (.openParen :: ts) := by
  obtain ⟨inner, rest, rfl, inside, behind⟩ := h
  cases depth with
  | zero => exact Settled.nest inside behind
  | succ depth =>
    obtain ⟨inner', rest', rfl, inside', behind'⟩ := behind
    exact ⟨_, rest', by simp, .nest inside inside', behind'⟩

theorem closes_of_foldl {depth : Nat} (h : ts.foldl depthAfter depth = 0) : Closes depth ts := by
  induction ts generalizing depth with
  | nil =>
    obtain rfl : depth = 0 := h
    exact Settled.nil
  | cons t ts ih =>
    have hts := ih h
    cases t with
    | openParen => exact hts.openParen
    | closeParen =>
      cases depth with
      | zero => exact Settled.cons (by simp) hts
      | succ depth => exact ⟨[], ts, rfl, .nil, hts⟩
    | word => exact hts.cons (by simp) (by simp)
    | other => exact hts.cons (by simp) (by simp)

theorem settled_iff : Settled ts ↔ ts.foldl depthAfter 0 = 0 :=
  ⟨Settled.foldl_depthAfter, closes_of_foldl⟩

instance : Decidable (Settled ts) :=
  decidable_of_iff _ settled_iff.symm

theorem Balanced.settled (h : Balanced ts) : Settled ts :=
  settled_iff.mpr (h.foldl_depthAfter 0)

theorem count_openParen_nest (inner rest : List Token) :
    (.openParen :: (inner ++ .closeParen :: rest)).count .openParen =
      inner.count .openParen + rest.count .openParen + 1 := by
  rw [List.count_cons_self, List.count_append, List.count_cons_of_ne (by simp)]

theorem count_closeParen_nest (inner rest : List Token) :
    (.openParen :: (inner ++ .closeParen :: rest)).count .closeParen =
      inner.count .closeParen + rest.count .closeParen + 1 := by
  rw [List.count_cons_of_ne (by simp), List.count_append, List.count_cons_self, Nat.add_assoc]

theorem Balanced.count_eq (h : Balanced ts) : ts.count .openParen = ts.count .closeParen := by
  induction h with
  | nil => rfl
  | cons opens closes _ ih => rwa [List.count_cons_of_ne opens, List.count_cons_of_ne closes]
  | nest _ _ inside behind =>
    rw [count_openParen_nest, count_closeParen_nest, inside, behind]

/-- Closing parentheses that match none are all that can be too many. -/
theorem Settled.count_le (h : Settled ts) : ts.count .openParen ≤ ts.count .closeParen ∧
    (ts.count .openParen = ts.count .closeParen → Balanced ts) := by
  induction h with
  | nil => exact ⟨Nat.le_refl _, fun _ => .nil⟩
  | @cons t ts opens _ ih =>
    rw [List.count_cons_of_ne opens]
    by_cases closes : t = .closeParen
    · rw [closes, List.count_cons_self]
      exact ⟨Nat.le_succ_of_le ih.1, fun he => by omega⟩
    · rw [List.count_cons_of_ne closes]
      exact ⟨ih.1, fun he => .cons opens closes (ih.2 he)⟩
  | nest inside _ behind =>
    have := inside.count_eq
    have := behind.1
    rw [count_openParen_nest, count_closeParen_nest]
    exact ⟨by omega, fun he => .nest inside (behind.2 (by omega))⟩

theorem balanced_iff :
    Balanced ts ↔ Settled ts ∧ ts.count .openParen = ts.count .closeParen :=
  ⟨fun h => ⟨h.settled, h.count_eq⟩, fun h => h.1.count_le.2 h.2⟩

instance : Decidable (Balanced ts) :=
  decidable_of_iff _ balanced_iff.symm

theorem wordAt_self (chars : List Char) (ts : List Token) : WordAt (.word chars :: ts) [] chars :=
  ⟨ts, rfl⟩

theorem not_wordAt_nil {front : List Token} : ¬ WordAt [] front chars := by
  simp [WordAt]

theorem WordAt.append {front : List Token} (h : WordAt ts front chars) (more : List Token) :
    WordAt (more ++ ts) (more ++ front) chars := by
  obtain ⟨back, rfl⟩ := h
  exact ⟨back, (List.append_assoc ..).symm⟩

/-- A word stands at the head of a list or in its tail. -/
theorem exists_wordAt_cons {t : Token} {P : List Token → Prop} :
    (∃ front, WordAt (t :: ts) front chars ∧ P front) ↔
      (t = .word chars ∧ P []) ∨ ∃ front, WordAt ts front chars ∧ P (t :: front) := by
  constructor
  · rintro ⟨front, ⟨back, he⟩, hp⟩
    cases front with
    | nil =>
      obtain ⟨rfl, rfl⟩ := List.cons.inj he
      exact .inl ⟨rfl, hp⟩
    | cons u front =>
      obtain ⟨rfl, rfl⟩ := List.cons.inj he
      exact .inr ⟨front, ⟨back, rfl⟩, hp⟩
  · rintro (⟨rfl, hp⟩ | ⟨front, hw, hp⟩)
    · exact ⟨[], wordAt_self chars ts, hp⟩
    · exact ⟨t :: front, hw.append [t], hp⟩

theorem mem_outerWords_iff {depth : Nat} : chars ∈ outerWords depth ts ↔
    ∃ front, WordAt ts front chars ∧ front.foldl depthAfter depth = 0 := by
  induction ts generalizing depth with
  | nil => simp [outerWords, not_wordAt_nil]
  | cons t ts ih =>
    rw [exists_wordAt_cons]
    simp only [List.foldl_cons, List.foldl_nil, ← ih]
    cases t with
    | openParen => simp [outerWords]
    | closeParen => simp [outerWords]
    | other => simp [outerWords]
    | word other =>
      by_cases hd : depth = 0
      · simp [outerWords, depthAfter, hd, eq_comm]
      · simp [outerWords, depthAfter, hd]

theorem outer_iff : Outer ts chars ↔ chars ∈ outerWords 0 ts := by
  simp only [Outer, mem_outerWords_iff, settled_iff]

instance {P : List Char → Prop} [DecidablePred P] : Decidable (∀ chars, Outer ts chars → P chars) :=
  decidable_of_iff (∀ chars ∈ outerWords 0 ts, P chars) (by simp only [outer_iff])

theorem Outer.cons {t : Token} (opens : t ≠ .openParen) (h : Outer ts chars) :
    Outer (t :: ts) chars := by
  obtain ⟨front, hw, settled⟩ := h
  exact ⟨t :: front, hw.append [t], .cons opens settled⟩

theorem Outer.nest {inner : List Token} (inside : Balanced inner) (h : Outer ts chars) :
    Outer (.openParen :: (inner ++ .closeParen :: ts)) chars := by
  obtain ⟨front, hw, settled⟩ := h
  have hrest := (hw.append [.closeParen]).append inner
  exact ⟨_, hrest.append [.openParen], .nest inside settled⟩

end NamedSql.Token
