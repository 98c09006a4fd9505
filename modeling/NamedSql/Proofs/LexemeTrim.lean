import NamedSql.Proofs.Lexeme
import NamedSql.Proofs.RegionEnds

namespace NamedSql

theorem tamer_trimEnd (cs : List Char) : Tamer (trimEnd cs) cs := by
  obtain ⟨dropped, hd, hb⟩ := dropEndWhile_append isBlank cs
  have hi : ∀ c ∈ dropped.head?, isInert c := fun c hc =>
    isInert_of_isBlank (hb c (List.mem_of_mem_head? hc))
  have ht := Tamer.of_append_inert hi (trimEnd cs)
  rwa [trimEnd, ← hd] at ht

theorem Region.Released.eq_nil {r : Region} {rest : List Char} (h : r.Released rest)
    (ht : r.terminated = false) : rest = [] := by
  rwa [Region.Released, ht] at h

namespace Lexeme

def regions (ls : List Lexeme) : List Region :=
  ls.filterMap fun
    | .code _ => none
    | .region r => some r

/-- No region of the list is a comment. -/
def Plain (ls : List Lexeme) : Prop :=
  ∀ r ∈ regions ls, r.kind.isComment = false

def trimStart : List Lexeme → List Lexeme
  | .code c :: ls => if isBlank c then trimStart ls else .code c :: ls
  | ls => ls

/-- Only the last region can be open, so that trimming all of them trims that one. -/
def trimEnd : List Lexeme → List Lexeme
  | [] => []
  | .code c :: ls => if (trimEnd ls).isEmpty && isBlank c then [] else .code c :: trimEnd ls
  | .region r :: ls => .region r.trimOpen :: trimEnd ls

@[simp] theorem regions_nil : regions [] = [] := rfl

@[simp] theorem regions_code (c : Char) (ls : List Lexeme) :
    regions (.code c :: ls) = regions ls := rfl

@[simp] theorem regions_region (r : Region) (ls : List Lexeme) :
    regions (.region r :: ls) = r :: regions ls := rfl

@[simp] theorem plain_code_iff {c : Char} {ls : List Lexeme} :
    Plain (.code c :: ls) ↔ Plain ls := Iff.rfl

@[simp] theorem plain_region_iff {r : Region} {ls : List Lexeme} :
    Plain (.region r :: ls) ↔ r.kind.isComment = false ∧ Plain ls := by
  simp [Plain]

theorem regions_trimStart (ls : List Lexeme) : regions (trimStart ls) = regions ls := by
  fun_induction trimStart ls with
  | case1 c ls _ ih => exact ih
  | case2 => rfl
  | case3 => rfl

theorem regions_trimEnd (ls : List Lexeme) :
    regions (trimEnd ls) = (regions ls).map Region.trimOpen := by
  fun_induction trimEnd ls with
  | case1 => rfl
  | case2 c ls h ih =>
    have he : trimEnd ls = [] := by
      simp only [Bool.and_eq_true, List.isEmpty_iff] at h
      exact h.1
    rw [he] at ih
    exact ih
  | case3 c ls _ ih => exact ih
  | case4 r ls ih => simp [ih]

theorem plain_trimStart {ls : List Lexeme} (h : Plain ls) : Plain (trimStart ls) := by
  rwa [Plain, regions_trimStart]

theorem Scanned.trimStart {ls : List Lexeme} (h : Scanned none ls) :
    Scanned none (trimStart ls) := by
  fun_induction Lexeme.trimStart ls with
  | case1 c ls hc ih =>
    obtain ⟨-, rest⟩ := scanned_code_iff.mp h
    exact ih ((scanned_after_inert_iff (isInert_of_isBlank hc)).mp rest)
  | case2 => exact h
  | case3 => exact h

theorem join_trimStart {before : Option Char} {ls : List Lexeme} (h : Scanned before ls) :
    join (trimStart ls) = NamedSql.trimStart (join ls) := by
  induction h with
  | nil => rfl
  | @code _ c ls _ _ ih =>
    by_cases hc : isBlank c
    · simpa [trimStart, NamedSql.trimStart, text, hc] using ih
    · simp [trimStart, NamedSql.trimStart, text, hc]
  | @region _ r ls shape _ _ _ _ =>
    obtain ⟨c, cs, hr, hc, -⟩ := shape.exists_text_cons
    simp [trimStart, NamedSql.trimStart, text, hr, hc]

/-- Dropping the blanks at the end of a scan is dropping those at the end of its text. -/
theorem Scanned.trimEnd {before : Option Char} {ls : List Lexeme} (h : Scanned before ls)
    (hp : Plain ls) :
    Scanned before (trimEnd ls) ∧ join (trimEnd ls) = NamedSql.trimEnd (join ls) := by
  induction h with
  | nil => exact ⟨.nil, rfl⟩
  | @code before c ls free _ ih =>
    obtain ⟨hs, hj⟩ := ih (plain_code_iff.mp hp)
    have he : (Lexeme.trimEnd ls).isEmpty = (NamedSql.trimEnd (join ls)).isEmpty := by
      rw [← hj, Bool.eq_iff_iff, List.isEmpty_iff, List.isEmpty_iff]
      exact ⟨fun hn => by rw [hn, join_nil], hs.eq_nil_of_join⟩
    rw [Lexeme.trimEnd, he, join_cons, text, List.singleton_append, trimEnd_cons]
    split
    · exact ⟨.nil, rfl⟩
    · refine ⟨.code ?_ hs, by rw [join_cons, hj, text, List.singleton_append]⟩
      rw [hj]
      exact Region.Kind.opens?_eq_none_of_tamer (tamer_trimEnd _) free
  | @region before r ls shape fits released rest ih =>
    obtain ⟨hr, hls⟩ := plain_region_iff.mp hp
    obtain ⟨hs, hj⟩ := ih hls
    cases ht : r.terminated with
    | true =>
      have hk := Region.Kind.ne_lineComment hr
      rw [Lexeme.trimEnd, Region.trimOpen_of_terminated ht]
      refine ⟨.region shape fits ?_ hs, ?_⟩
      · rw [hj]
        exact released.of_tamer ht hk (tamer_trimEnd _)
      · rw [join_cons, join_cons, hj, text,
          trimEnd_append (shape.isBlank_getLast?_text ht hk)]
    | false =>
      -- Nothing stands behind an open region, so that its own end is the end of the text.
      obtain rfl := rest.eq_nil_of_join (released.eq_nil ht)
      refine ⟨.region shape.trimOpen (by rwa [Region.trimOpen_kind]) ?_ .nil, ?_⟩
      · rw [Region.Released, Region.trimOpen_terminated, ht]
        rfl
      · simp [Lexeme.trimEnd, text, Region.trimOpen_text_of_open ht]

/-- Scanning a trimmed text is trimming the scan of the text. -/
theorem scan_trim {ls : List Lexeme} (h : Scanned none ls) (hp : Plain ls) :
    scan none (trim (join ls)) = trimEnd (trimStart ls) := by
  obtain ⟨hs, hj⟩ := h.trimStart.trimEnd (plain_trimStart hp)
  rw [trim, ← join_trimStart h, ← hj]
  exact hs.scan_join

end Lexeme

end NamedSql
