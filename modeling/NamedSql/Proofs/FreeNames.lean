import Mathlib.Algebra.Group.Nat.Defs
import Mathlib.Data.List.Nodup
import Mathlib.Data.List.Perm.Subperm
import Mathlib.Data.Nat.Init
import NamedSql.Manifest

namespace NamedSql

theorem isIdentifier_append {cs ds : List Char} (h : isIdentifier cs)
    (hd : ∀ d ∈ ds, isIdentifierRest d) : isIdentifier (cs ++ ds) := by
  cases cs with
  | nil => cases h
  | cons c cs =>
    simp only [isIdentifier, Bool.and_eq_true] at h
    simp only [List.cons_append, isIdentifier, List.all_append, Bool.and_eq_true]
    exact ⟨h.1, h.2, List.all_eq_true.mpr hd⟩

theorem isIdentifierRest_of_mem_toString {n : Nat} {c : Char} (h : c ∈ (toString n).toList) :
    isIdentifierRest c := by
  have hd : c.isDigit := by
    rw [Nat.toString_eq_ofList_toDigits, String.toList_ofList] at h
    exact Nat.isDigit_of_mem_toDigits (by decide) (by decide) h
  simp [isIdentifierRest, Char.isAlphanum, hd]

theorem isIdentifier_fallbackName (ordinal : Nat) : isIdentifier (fallbackName ordinal).toList := by
  rw [fallbackName, String.toList_append]
  exact isIdentifier_append (by decide) fun _ => isIdentifierRest_of_mem_toString

namespace Manifest

/-- What a variant adds to its base. -/
def suffix : Nat → List Char
  | 0 => []
  | n + 1 => '_' :: (toString (n + 2)).toList

theorem toList_variant (base : String) (n : Nat) :
    (variant base n).toList = base.toList ++ suffix n := by
  cases n with
  | zero => simp [variant, suffix]
  | succ n => simp [variant, suffix]

theorem suffix_injective : Function.Injective suffix := by
  intro m n h
  cases m with
  | zero =>
    cases n with
    | zero => rfl
    | succ n => cases h
  | succ m =>
    cases n with
    | zero => cases h
    | succ n =>
      have hs : (toString (m + 2)).toList = (toString (n + 2)).toList := (List.cons.inj h).2
      have hn := congrArg (fun digits => Nat.ofDigitChars 10 digits 0) hs
      simpa [Nat.toString_eq_ofList_toDigits] using hn

theorem variant_injective (base : String) : Function.Injective (variant base) := by
  intro m n h
  have hl := congrArg String.toList h
  rw [toList_variant, toList_variant] at hl
  exact suffix_injective (List.append_cancel_left hl)

theorem isIdentifier_variant {base : String} (h : isIdentifier base.toList) (n : Nat) :
    isIdentifier (variant base n).toList := by
  rw [toList_variant]
  refine isIdentifier_append h fun d hd => ?_
  cases n with
  | zero => cases hd
  | succ n =>
    rcases List.mem_cons.mp hd with rfl | hd
    · decide
    · exact isIdentifierRest_of_mem_toString hd

/-- The variants of a name differ, so that no more of them are taken than there are taken names. -/
theorem le_length_of_variants {taken : List String} {base : String} {n : Nat}
    (h : ∀ k < n, variant base k ∈ taken) : n ≤ taken.length := by
  have hsub : (List.range n).map (variant base) ⊆ taken := by
    intro name hname
    obtain ⟨k, hk, rfl⟩ := List.mem_map.mp hname
    exact h k (List.mem_range.mp hk)
  have hd : ((List.range n).map (variant base)).Nodup :=
    List.nodup_range.map (variant_injective base)
  simpa using hd.length_le_of_subset hsub

/-- The taken names are too few for all variants that are tried. -/
theorem exists_variant_not_mem (taken : List String) (base : String) :
    ∃ n ≤ taken.length, variant base n ∉ taken := by
  by_contra hn
  have hall : ∀ n < taken.length + 1, variant base n ∈ taken := by
    simpa [Nat.lt_succ_iff] using hn
  have hle := le_length_of_variants hall
  omega

/-- The free name is the first variant that is not taken. No more of them are tried than there are
taken names, and one. -/
theorem freeName_eq_variant (taken : List String) (base : String) :
    ∃ n ≤ taken.length, freeName taken base = variant base n ∧ variant base n ∉ taken ∧
      ∀ k < n, variant base k ∈ taken := by
  rw [freeName]
  cases hf : (List.range (taken.length + 1)).find? fun n => !taken.contains (variant base n) with
  | none =>
    obtain ⟨n, hn, hfree⟩ := exists_variant_not_mem taken base
    have := List.find?_eq_none.mp hf n (List.mem_range.mpr (Nat.lt_succ_of_le hn))
    simp [hfree] at this
  | some n =>
    obtain ⟨hfree, hn, hfirst⟩ := List.find?_range_eq_some.mp hf
    refine ⟨n, Nat.le_of_lt_succ (List.mem_range.mp hn), rfl, by simpa using hfree, ?_⟩
    intro k hk
    simpa using hfirst k hk

theorem freeName_not_mem (taken : List String) (base : String) : freeName taken base ∉ taken := by
  obtain ⟨n, -, hn, hfree, -⟩ := freeName_eq_variant taken base
  rwa [hn]

theorem isIdentifier_freeName (taken : List String) {base : String}
    (h : isIdentifier base.toList) : isIdentifier (freeName taken base).toList := by
  obtain ⟨n, -, hn, -⟩ := freeName_eq_variant taken base
  rw [hn]
  exact isIdentifier_variant h n

/-- The first variant of a name that is not taken. -/
def IsFirstFree (taken : List String) (base name : String) : Prop :=
  ∃ n, name = variant base n ∧ variant base n ∉ taken ∧ ∀ k < n, variant base k ∈ taken

/-- The search for a free name, come to `name`, ends at `found`. The number of the variant that is
next has 32 bits and wraps around. -/
inductive Search (taken : List String) (base : String) : String → Int32 → String → Prop
  | free {name : String} {number : Int32} (h : name ∉ taken) : Search taken base name number name
  | next {name found : String} {number : Int32} (h : name ∈ taken)
      (rest : Search taken base (base ++ "_" ++ toString number) (number + 1) found) :
      Search taken base name number found

section Search
variable {taken others : List String} {base name found other : String} {number : Int32}

theorem IsFirstFree.congr (h : IsFirstFree taken base name) (ht : ∀ x, x ∈ taken ↔ x ∈ others) :
    IsFirstFree others base name := by
  obtain ⟨n, hn, hfree, hfirst⟩ := h
  exact ⟨n, hn, mt (ht _).mpr hfree, fun k hk => (ht _).mp (hfirst k hk)⟩

theorem IsFirstFree.not_mem (h : IsFirstFree taken base name) : name ∉ taken := by
  obtain ⟨n, rfl, hfree, -⟩ := h
  exact hfree

theorem isFirstFree_freeName (taken : List String) (base : String) :
    IsFirstFree taken base (freeName taken base) := by
  obtain ⟨n, -, hn, hfree, hfirst⟩ := freeName_eq_variant taken base
  exact ⟨n, hn, hfree, hfirst⟩

theorem Search.unique (h : Search taken base name number found)
    (ho : Search taken base name number other) : found = other := by
  induction h with
  | free hfree =>
    cases ho with
    | free => rfl
    | next hm => exact absurd hm hfree
  | next hm _ ih =>
    cases ho with
    | free hfree => exact absurd hm hfree
    | next _ rest => exact ih rest

theorem toString_int32_ofNat {n : Nat} (h : n < 2 ^ 31) :
    toString (Int32.ofNat n) = toString n := by
  change toString (Int32.ofNat n).toInt = toString n
  rw [Int32.toInt_ofNat_of_lt h]
  rfl

/-- From a taken variant the search goes on to the first free one. -/
theorem search_variant {n k : Nat} (hn : n < 2 ^ 31 - 1) (hfree : variant base n ∉ taken)
    (hfirst : ∀ k < n, variant base k ∈ taken) (hk : k ≤ n) :
    Search taken base (variant base k) (Int32.ofNat (k + 2)) (variant base n) := by
  induction hk using Nat.decreasingInduction with
  | self => exact .free hfree
  | of_succ k hk ih =>
    refine .next (hfirst k hk) ?_
    rw [toString_int32_ofNat (by omega), show (1 : Int32) = Int32.ofNat 1 from rfl,
      ← Int32.ofNat_add]
    exact ih

theorem search_iff (h : IsFirstFree taken base name) (hl : taken.length < 2 ^ 31 - 1) :
    Search taken base base 2 found ↔ found = name := by
  obtain ⟨n, rfl, hfree, hfirst⟩ := h
  have hn : n < 2 ^ 31 - 1 := Nat.lt_of_le_of_lt (le_length_of_variants hfirst) hl
  have hends : Search taken base base 2 (variant base n) :=
    search_variant hn hfree hfirst (Nat.zero_le n)
  constructor
  · exact fun hs => hs.unique hends
  · rintro rfl
    exact hends

end Search

/-- An entry has the content of its statement, and its name if that is given. -/
theorem forall₂_ofStatement_entriesOf (taken : List String) (statements : List NamedStatement) :
    List.Forall₂ (fun s e => e = .ofStatement (s.name.getD e.name) s) statements
      (entriesOf taken statements) := by
  induction statements generalizing taken with
  | nil => exact .nil
  | cons s rest ih =>
    rw [entriesOf]
    cases hn : s.name with
    | some name => exact .cons (by simp [hn]) (ih taken)
    | none => exact .cons (by simp [hn, Entry.ofStatement]) (ih _)

/-- What does not depend on its name an entry has from its statement. -/
theorem map_entriesOf {α : Type} {f : Entry → α} {g : NamedStatement → α}
    (h : ∀ name s, f (.ofStatement name s) = g s) (taken : List String)
    (statements : List NamedStatement) :
    (entriesOf taken statements).map f = statements.map g := by
  rw [eq_comm, ← List.forall₂_eq_eq_eq, List.forall₂_map_left_iff, List.forall₂_map_right_iff]
  exact (forall₂_ofStatement_entriesOf taken statements).imp fun s e he => by rw [he, h]

/-- A name that was given is kept. -/
theorem forall₂_name_entriesOf (taken : List String) (statements : List NamedStatement) :
    List.Forall₂ (fun s e => ∀ name ∈ s.name, e.name = name) statements
      (entriesOf taken statements) := by
  refine (forall₂_ofStatement_entriesOf taken statements).imp fun s e he name hn => ?_
  rw [he, Option.mem_def.mp hn]
  rfl

/-- The name of an entry was given, or it is a free variant of a fallback name. -/
theorem name_of_mem_entriesOf {taken : List String} {statements : List NamedStatement} {e : Entry}
    (h : e ∈ entriesOf taken statements) :
    e.name ∈ statements.filterMap (·.name) ∨
      e.name ∉ taken ∧ ∃ reserved n, e.name = freeName reserved (fallbackName n) := by
  induction statements generalizing taken with
  | nil => cases h
  | cons s rest ih =>
    rw [entriesOf] at h
    cases hn : s.name with
    | some name =>
      rw [hn] at h
      rw [List.filterMap_cons_some hn]
      rcases List.mem_cons.mp h with rfl | h
      · exact .inl (List.mem_cons_self ..)
      · exact (ih h).imp_left (List.mem_cons_of_mem _)
    | none =>
      rw [hn] at h
      rw [List.filterMap_cons_none hn]
      rcases List.mem_cons.mp h with rfl | h
      · exact .inr ⟨freeName_not_mem _ _, taken, _, rfl⟩
      · rcases ih h with hg | ⟨hm, hv⟩
        · exact .inl hg
        · exact .inr ⟨fun ht => hm (List.mem_cons_of_mem _ ht), hv⟩

/-- While the names that are given differ and are taken, no name is used twice. -/
theorem nodup_names_entriesOf {taken : List String} {statements : List NamedStatement}
    (hd : (statements.filterMap (·.name)).Nodup)
    (ht : ∀ name ∈ statements.filterMap (·.name), name ∈ taken) :
    ((entriesOf taken statements).map Entry.name).Nodup := by
  induction statements generalizing taken with
  | nil => exact .nil
  | cons s rest ih =>
    rw [entriesOf]
    cases hn : s.name with
    | some name =>
      rw [List.filterMap_cons_some hn] at hd ht
      obtain ⟨hnew, hd⟩ := List.nodup_cons.mp hd
      refine List.nodup_cons.mpr ⟨?_, ih hd fun other ho => ht other (List.mem_cons_of_mem _ ho)⟩
      intro hm
      obtain ⟨e, he, hen⟩ := List.mem_map.mp hm
      change e.name = name at hen
      -- A later entry has a name of its own, or one that is not taken. This one is taken.
      rcases name_of_mem_entriesOf he with hg | ⟨hf, -⟩
      · exact hnew (hen ▸ hg)
      · exact hf (hen ▸ ht name (List.mem_cons_self ..))
    | none =>
      rw [List.filterMap_cons_none hn] at hd ht
      refine List.nodup_cons.mpr
        ⟨?_, ih hd fun other ho => List.mem_cons_of_mem _ (ht other ho)⟩
      intro hm
      obtain ⟨e, he, hen⟩ := List.mem_map.mp hm
      change e.name = freeName taken (fallbackName s.statement.ordinal) at hen
      have hfree := freeName_not_mem taken (fallbackName s.statement.ordinal)
      rcases name_of_mem_entriesOf he with hg | ⟨hf, -⟩
      · exact hfree (hen ▸ ht _ hg)
      · exact hf (hen ▸ List.mem_cons_self ..)

end Manifest

end NamedSql
