import Mathlib.Data.List.TakeWhile
import NamedSql.Text.Blank

namespace NamedSql

theorem ne_of_isBlank {c d : Char} (hc : isBlank c) (hd : isBlank d = false) : c ≠ d := by
  intro he
  simp [he, hd] at hc

theorem dropEndWhile_eq_nil_iff {p : Char → Bool} {cs : List Char} :
    dropEndWhile p cs = [] ↔ ∀ c ∈ cs, p c := by
  constructor
  · intro h
    obtain ⟨dropped, hd, hp⟩ := dropEndWhile_append p cs
    rw [h, List.nil_append] at hd
    exact hd ▸ hp
  · intro h
    induction cs with
    | nil => rfl
    | cons c cs ih =>
      rw [dropEndWhile, ih fun d hd => h d (List.mem_cons_of_mem c hd)]
      simp [h c (List.mem_cons_self ..)]

theorem dropEndWhile_append_of_all {p : Char → Bool} {ds : List Char} (h : ∀ d ∈ ds, p d)
    (cs : List Char) : dropEndWhile p (cs ++ ds) = dropEndWhile p cs := by
  induction cs with
  | nil => exact dropEndWhile_eq_nil_iff.mpr h
  | cons c cs ih => rw [List.cons_append, dropEndWhile, ih, dropEndWhile]

theorem dropEndWhile_append_of_ne_nil {p : Char → Bool} {ds : List Char}
    (h : dropEndWhile p ds ≠ []) (cs : List Char) :
    dropEndWhile p (cs ++ ds) = cs ++ dropEndWhile p ds := by
  induction cs with
  | nil => rfl
  | cons c cs ih =>
    obtain ⟨e, es, he⟩ := List.exists_cons_of_ne_nil (l := cs ++ dropEndWhile p ds) (by simp [h])
    rw [List.cons_append, dropEndWhile, ih, List.cons_append, he]

theorem trimEnd_cons (c : Char) (cs : List Char) :
    trimEnd (c :: cs) = if (trimEnd cs).isEmpty && isBlank c then [] else c :: trimEnd cs := by
  simp only [trimEnd, dropEndWhile]
  split
  · rename_i h
    simp [h]
  · rename_i h
    simp [h]

theorem trimEnd_append {cs : List Char} (h : ∀ c ∈ cs.getLast?, isBlank c = false)
    (ds : List Char) : trimEnd (cs ++ ds) = cs ++ trimEnd ds := by
  by_cases hd : trimEnd ds = []
  · rw [trimEnd, dropEndWhile_append_of_all (dropEndWhile_eq_nil_iff.mp hd), hd,
      dropEndWhile_eq_self h, List.append_nil]
  · exact dropEndWhile_append_of_ne_nil hd cs

theorem trimStart_append_of_all {cs : List Char} (h : ∀ c ∈ cs, isBlank c) (ds : List Char) :
    trimStart (cs ++ ds) = trimStart ds :=
  List.dropWhile_append_of_pos h

theorem isBlank_of_mem_takeWhile {cs : List Char} : ∀ c ∈ cs.takeWhile isBlank, isBlank c :=
  List.all_eq_true.mp List.all_takeWhile

theorem takeWhile_append_trimStart (cs : List Char) : cs.takeWhile isBlank ++ trimStart cs = cs :=
  List.takeWhile_append_dropWhile

theorem isBlank_of_mem_spaces {n : Nat} : ∀ c ∈ List.replicate n ' ', isBlank c := by
  intro c hc
  rw [List.eq_of_mem_replicate hc]
  decide

/-- The text lies between the blanks at its two ends. -/
theorem append_trim (cs : List Char) :
    ∃ back, cs = cs.takeWhile isBlank ++ (trim cs ++ back) ∧ ∀ c ∈ back, isBlank c := by
  obtain ⟨back, hb, hp⟩ := dropEndWhile_append isBlank (trimStart cs)
  refine ⟨back, ?_, hp⟩
  rw [trim, trimEnd, ← hb, takeWhile_append_trimStart]

theorem isBlank_head?_trim {cs : List Char} {c : Char} (h : c ∈ (trim cs).head?) :
    isBlank c = false := by
  have := List.head?_dropWhile_not isBlank (trim cs)
  rw [show (trim cs).dropWhile isBlank = trim cs from trimStart_trim cs, h] at this
  simpa using this

theorem isBlank_getLast?_trim {cs : List Char} {c : Char} (h : c ∈ (trim cs).getLast?) :
    isBlank c = false :=
  not_of_getLast?_dropEndWhile h

theorem trim_cons_of_blank {c : Char} (h : isBlank c) (cs : List Char) :
    trim (c :: cs) = trim cs := by
  rw [trim, trim, ← List.singleton_append, trimStart_append_of_all (by simpa using h)]

theorem trim_append_of_all {ds : List Char} (h : ∀ d ∈ ds, isBlank d) (cs : List Char) :
    trim (cs ++ ds) = trim cs := by
  by_cases hc : ∀ c ∈ cs, isBlank c
  · have hcs : trimStart cs = [] := by
      rw [← List.append_nil cs, trimStart_append_of_all hc]
      rfl
    have hds : trimStart ds = [] := by
      rw [← List.append_nil ds, trimStart_append_of_all h]
      rfl
    rw [trim, trim, trimStart_append_of_all hc, hcs, hds]
  · have hne : ¬ (cs.dropWhile isBlank).isEmpty := fun hn =>
      hc (List.dropWhile_eq_nil_iff.mp (List.isEmpty_iff.mp hn))
    have he : trimStart (cs ++ ds) = trimStart cs ++ ds := by
      rw [trimStart, List.dropWhile_append, if_neg hne, trimStart]
    rw [trim, trim, he, trimEnd, dropEndWhile_append_of_all h]
    rfl

theorem trim_eq_nil_iff {cs : List Char} : trim cs = [] ↔ ∀ c ∈ cs, isBlank c := by
  constructor
  · intro h
    obtain ⟨back, hc, hb⟩ := append_trim cs
    rw [h, List.nil_append] at hc
    rw [hc]
    intro c hm
    exact (List.mem_append.mp hm).elim (isBlank_of_mem_takeWhile c) (hb c)
  · intro h
    exact trim_append_of_all h []

end NamedSql
