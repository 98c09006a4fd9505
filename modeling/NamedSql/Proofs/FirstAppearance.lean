import Mathlib.Data.List.Induction
import Mathlib.Data.List.Nodup

namespace NamedSql

variable {α β : Type} [BEq α] [LawfulBEq α] [BEq β] [LawfulBEq β]

theorem eraseDups_concat (as : List α) (a : α) :
    (as ++ [a]).eraseDups = if a ∈ as then as.eraseDups else as.eraseDups ++ [a] := by
  rw [List.eraseDups_append]
  split
  · rename_i h
    simp [List.removeAll, h]
  · rename_i h
    simp [List.removeAll, h, List.eraseDups_cons]

theorem nodup_eraseDups (as : List α) : as.eraseDups.Nodup := by
  induction as using List.reverseRecOn with
  | nil => exact .nil
  | append_singleton as a ih =>
    rw [eraseDups_concat]
    split
    · exact ih
    · rename_i h
      rw [← List.concat_eq_append]
      exact ih.concat (mt List.mem_eraseDups.mp h)

theorem eraseDups_of_nodup {as : List α} (h : as.Nodup) : as.eraseDups = as := by
  induction as using List.reverseRecOn with
  | nil => rfl
  | append_singleton as a ih =>
    obtain ⟨ha, -, hd⟩ := List.nodup_append.mp h
    rw [eraseDups_concat, if_neg fun hm => hd a hm a (List.mem_singleton_self a) rfl, ih ha]

theorem eraseDups_map {f : α → β} (hf : Function.Injective f) (as : List α) :
    (as.map f).eraseDups = as.eraseDups.map f := by
  induction as using List.reverseRecOn with
  | nil => rfl
  | append_singleton as a ih =>
    rw [List.map_append, List.map_singleton, eraseDups_concat, eraseDups_concat, ih]
    by_cases ha : a ∈ as
    · rw [if_pos ha, if_pos (List.mem_map_of_mem ha)]
    · rw [if_neg ha, if_neg (mt (List.mem_map_of_injective hf).mp ha), List.map_append,
        List.map_singleton]

/-- Repetitions may be dropped in the second part first. -/
theorem eraseDups_append_eraseDups (as bs : List α) :
    (as ++ bs.eraseDups).eraseDups = (as ++ bs).eraseDups := by
  induction bs using List.reverseRecOn with
  | nil => rfl
  | append_singleton bs b ih =>
    rw [← List.append_assoc, eraseDups_concat (as ++ bs), ← ih, eraseDups_concat bs]
    by_cases hb : b ∈ bs
    · simp [hb]
    · rw [if_neg hb, ← List.append_assoc, eraseDups_concat]
      simp [List.mem_eraseDups, hb]

/-- Repetitions may be dropped in the first part first. -/
theorem eraseDups_eraseDups_append (as bs : List α) :
    (as.eraseDups ++ bs).eraseDups = (as ++ bs).eraseDups := by
  have hremove : bs.removeAll as.eraseDups = bs.removeAll as := by
    simp [List.removeAll, List.mem_eraseDups]
  rw [List.eraseDups_append, List.eraseDups_append, eraseDups_of_nodup (nodup_eraseDups as), hremove]

/-- A member is put in without effect if it was there before, or if it is the next new one. -/
theorem eraseDups_append_cons_iff (as bs : List α) (a : α) :
    (as ++ a :: bs).eraseDups = (as ++ bs).eraseDups ↔
      a ∈ as ∨ bs.find? (fun b => !as.contains b) = some a := by
  have hfind : bs.find? (fun b => !as.contains b) = (bs.removeAll as).head? := by
    rw [List.removeAll, List.head?_filter]
  rw [List.eraseDups_append, List.eraseDups_append, List.append_cancel_left_eq, hfind]
  by_cases ha : a ∈ as
  · simp [ha, List.removeAll]
  · have hcons : (a :: bs).removeAll as = a :: bs.removeAll as := by simp [ha, List.removeAll]
    rw [hcons, List.eraseDups_cons]
    simp only [ha, false_or]
    generalize bs.removeAll as = cs
    -- What is new decides by its first member.
    cases cs with
    | nil => simp
    | cons c cs =>
      rw [List.eraseDups_cons, List.head?_cons, Option.some.injEq]
      constructor
      · intro h
        exact (List.cons.inj h).1.symm
      · rintro rfl
        simp

/-- The members that are left over stand in the order of their first places. -/
theorem pairwise_eraseDups {places : List (Nat × α)} (h : places.Pairwise fun s t => s.1 < t.1) :
    (places.map (·.2)).eraseDups.Pairwise fun a b =>
      ∃ k, (k, a) ∈ places ∧ ∀ l, (l, b) ∈ places → k < l := by
  induction places using List.reverseRecOn with
  | nil => exact .nil
  | append_singleton places last ih =>
    obtain ⟨n, c⟩ := last
    obtain ⟨hp, -, hlast⟩ := List.pairwise_append.mp h
    have hlt {k : Nat} {a : α} (hk : (k, a) ∈ places) : k < n :=
      hlast _ hk _ (List.mem_singleton_self _)
    have hkept : (places.map (·.2)).eraseDups.Pairwise fun a b =>
        ∃ k, (k, a) ∈ places ++ [(n, c)] ∧ ∀ l, (l, b) ∈ places ++ [(n, c)] → k < l := by
      refine (ih hp).imp fun {a b} hab => ?_
      obtain ⟨k, hk, hfirst⟩ := hab
      refine ⟨k, List.mem_append_left _ hk, fun l hl => ?_⟩
      rcases List.mem_append.mp hl with hl | hl
      · exact hfirst l hl
      · cases List.mem_singleton.mp hl
        exact hlt hk
    rw [List.map_append, List.map_singleton, eraseDups_concat]
    split
    · exact hkept
    · rename_i hnew
      refine List.pairwise_append.mpr ⟨hkept, List.pairwise_singleton _ _, fun a ha b hb => ?_⟩
      cases List.mem_singleton.mp hb
      obtain ⟨⟨k, _⟩, hk, rfl⟩ := List.mem_map.mp (List.mem_eraseDups.mp ha)
      refine ⟨k, List.mem_append_left _ hk, fun l hl => ?_⟩
      rcases List.mem_append.mp hl with hl | hl
      · exact absurd (List.mem_map.mpr ⟨_, hl, rfl⟩) hnew
      · cases List.mem_singleton.mp hl
        exact hlt hk

end NamedSql
