import NamedSql.Proofs.ManifestNames
import NamedSql.Proofs.ParameterRuns

namespace NamedSql

/-- The longest identifier that the text begins with. -/
structure LongestIdentifier (text name : List Char) : Prop where
  begins : name <+: text
  form : IdentifierForm name
  longest : ∀ other, other <+: text → IdentifierForm other → other.length ≤ name.length

/-- The byte lies in a stretch of code. -/
def InCode (text : List Char) (k : Nat) : Prop :=
  ∃ p chars, (p, .code chars) ∈ Segment.locate .origin (Segment.ofText text) ∧
    p.byte ≤ k ∧ k < (p.after chars).byte

/-- A colon of the code begins at byte `k`, no colon stands in front of it, and the identifier
follows it. -/
def BindsAt (text : List Char) (k : Nat) (name : List Char) : Prop :=
  InCode text k ∧ ∃ before after, text = before ++ ':' :: after ∧ k = byteLength before ∧
    before.getLast? ≠ some ':' ∧ LongestIdentifier after name

/-- The names are those that the text binds, each once, in the order of their first places. -/
structure ListsBindings (text : List Char) (names : List (List Char)) : Prop where
  distinct : names.Nodup
  bound : ∀ name, name ∈ names ↔ ∃ k, BindsAt text k name
  ordered : names.Pairwise fun name other =>
    ∃ k, BindsAt text k name ∧ ∀ l, BindsAt text l other → k < l

theorem LongestIdentifier.unique {text name other : List Char} (h : LongestIdentifier text name)
    (ho : LongestIdentifier text other) : name = other := by
  have hle := ho.longest name h.begins h.form
  have hge := h.longest other ho.begins ho.form
  exact (List.prefix_of_prefix_length_le h.begins ho.begins hle).eq_of_length
    (Nat.le_antisymm hle hge)

theorem longestIdentifier_of_identifierAt? {text name : List Char}
    (h : identifierAt? text = some name) : LongestIdentifier text name := by
  have hform := isIdentifier_iff_form.mp (isIdentifier_of_identifierAt? h)
  have hname : name = text.takeWhile isIdentifierRest := by
    cases text with
    | nil => cases h
    | cons c cs =>
      rw [identifierAt?, Option.ite_none_right_eq_some] at h
      exact (Option.some.inj h.2).symm
  refine ⟨hname ▸ List.takeWhile_prefix _, hform, fun other hb ho => ?_⟩
  obtain ⟨more, rfl⟩ := hb
  have hall := all_rest_of_isIdentifier (isIdentifier_iff_form.mpr ho)
  rw [hname, List.takeWhile_append_of_pos hall, List.length_append]
  exact Nat.le_add_right ..

theorem identifierAt?_eq_some_iff {text name : List Char} :
    identifierAt? text = some name ↔ LongestIdentifier text name := by
  refine ⟨longestIdentifier_of_identifierAt?, fun h => ?_⟩
  obtain ⟨more, hm⟩ := h.begins
  have hi := isIdentifier_iff_form.mpr h.form
  cases name with
  | nil => cases hi
  | cons c cs =>
    have hc : isIdentifierStart c := (Bool.and_eq_true_iff.mp hi).1
    have hfound : identifierAt? text = some (text.takeWhile isIdentifierRest) := by
      rw [← hm, List.cons_append, identifierAt?, if_pos hc]
    rw [hfound, (longestIdentifier_of_identifierAt? hfound).unique h]

namespace Segment

/-- Each segment ends before the next ones begin. -/
theorem pairwise_locate (start : Position) (segments : List Segment) :
    (locate start segments).Pairwise fun s t => (s.1.after s.2.text).byte ≤ t.1.byte := by
  induction segments generalizing start with
  | nil => exact .nil
  | cons s rest ih =>
    refine List.pairwise_cons.mpr ⟨fun t ht => ?_, ih _⟩
    obtain ⟨front, back, -, hp⟩ := mem_locate_iff.mp ht
    simp only [hp, Position.byte_after]
    omega

end Segment

open Segment

/-- A character of code divides the segment that it stands in. -/
theorem inCode_iff {text before after : List Char} {c : Char} (ht : text = before ++ c :: after) :
    InCode text (byteLength before) ↔ ∃ front us vs back,
      ofText text = front ++ .code (us ++ c :: vs) :: back ∧ before = join front ++ us ∧
        after = vs ++ join back := by
  constructor
  · intro h
    obtain ⟨p, chars, hm, hle, hlt⟩ := h
    obtain ⟨front, back, hs, rfl⟩ := mem_locate_iff.mp hm
    have hj : text = join front ++ (chars ++ join back) := by
      rw [← join_ofText text, hs, join_append, join_cons]
      rfl
    simp only [Position.byte_after, Position.origin, Nat.zero_add] at hle hlt
    obtain ⟨us, rfl, he⟩ := append_of_byteLength_le (hj.symm.trans ht) hle
    rw [byteLength_append] at hlt
    obtain ⟨ds, rfl, hd⟩ := append_of_byteLength_le he.symm (by omega)
    cases ds with
    | nil => simp at hlt
    | cons d vs =>
      obtain ⟨rfl, rfl⟩ := List.cons.inj hd
      exact ⟨front, us, vs, back, hs, rfl, rfl⟩
  · intro h
    obtain ⟨front, us, vs, back, hs, rfl, rfl⟩ := h
    refine ⟨_, _, mem_locate_iff.mpr ⟨front, back, hs, rfl⟩, ?_, ?_⟩
    · simp [Position.origin]
    · have := c.utf8Size_pos
      simp [Position.origin]
      omega

/-- The names after the single colons of code that begins at byte `k`, each with the place of its
colon. `before` is the character in front of the code. -/
def bindingsOfCode (k : Nat) (before : Option Char) : List Char → List (Nat × List Char)
  | [] => []
  | c :: rest =>
    let later := bindingsOfCode (k + c.utf8Size) (some c) rest
    if c = ':' ∧ before ≠ some ':' then (identifierAt? rest).toList.map (k, ·) ++ later else later

/-- The names that a segment binds where it stands. -/
def Segment.bindings : Position × Segment → List (Nat × List Char)
  | (p, .code chars) => bindingsOfCode p.byte none chars
  | (_, .region _) => []

/-- The names that a text binds, in the order of their places. -/
def bindings (text : List Char) : List (Nat × List Char) :=
  (locate .origin (ofText text)).flatMap Segment.bindings

theorem map_snd_bindingsOfCode (k : Nat) (before : Option Char) (chars : List Char) :
    (bindingsOfCode k before chars).map (·.2) = parametersOfCode before chars := by
  induction chars generalizing k before with
  | nil => rfl
  | cons c rest ih =>
    rw [bindingsOfCode, parametersOfCode]
    split
    · rw [List.map_append, ih]
      simp
    · exact ih _ _

theorem mem_bindingsOfCode_cons {k l : Nat} {before : Option Char} {c : Char}
    {rest name : List Char} : (l, name) ∈ bindingsOfCode k before (c :: rest) ↔
      (l = k ∧ c = ':' ∧ before ≠ some ':' ∧ identifierAt? rest = some name) ∨
        (l, name) ∈ bindingsOfCode (k + c.utf8Size) (some c) rest := by
  rw [bindingsOfCode]
  split
  · rename_i hc
    simp [hc.1, hc.2, eq_comm, and_comm]
  · rename_i hc
    simp only [ne_eq, not_and, not_not] at hc
    constructor
    · exact .inr
    · rintro (⟨-, h, hb, -⟩ | h)
      · exact absurd (hc h) hb
      · exact h

theorem mem_bindingsOfCode_iff {k l : Nat} {before : Option Char} {chars name : List Char} :
    (l, name) ∈ bindingsOfCode k before chars ↔ ∃ us vs, chars = us ++ ':' :: vs ∧
      l = k + byteLength us ∧ us.getLast?.or before ≠ some ':' ∧ identifierAt? vs = some name := by
  induction chars generalizing k before with
  | nil => simp [bindingsOfCode]
  | cons c rest ih =>
    rw [mem_bindingsOfCode_cons, ih]
    constructor
    · rintro (⟨rfl, rfl, hb, hn⟩ | ⟨us, vs, rfl, rfl, hb, hn⟩)
      · exact ⟨[], rest, rfl, rfl, hb, hn⟩
      · refine ⟨c :: us, vs, rfl, by simp [Nat.add_assoc], ?_, hn⟩
        rwa [List.getLast?_cons, Option.some_or, ← Option.or_some]
    · rintro ⟨us, vs, hc, rfl, hb, hn⟩
      cases us with
      | nil =>
        obtain ⟨rfl, rfl⟩ := List.cons.inj hc
        exact .inl ⟨rfl, rfl, hb, hn⟩
      | cons d us =>
        obtain ⟨rfl, rfl⟩ := List.cons.inj hc
        refine .inr ⟨us, vs, rfl, by simp [Nat.add_assoc], ?_, hn⟩
        rwa [List.getLast?_cons, Option.some_or, ← Option.or_some] at hb

theorem pairwise_bindingsOfCode (k : Nat) (before : Option Char) (chars : List Char) :
    (bindingsOfCode k before chars).Pairwise fun s t => s.1 < t.1 := by
  induction chars generalizing k before with
  | nil => exact .nil
  | cons c rest ih =>
    rw [bindingsOfCode]
    split
    · refine List.pairwise_append.mpr ⟨by cases identifierAt? rest <;> simp, ih _ _, ?_⟩
      rintro s hs ⟨l, name⟩ hl
      obtain ⟨found, -, rfl⟩ := List.mem_map.mp hs
      obtain ⟨us, vs, -, rfl, -⟩ := mem_bindingsOfCode_iff.mp hl
      have := c.utf8Size_pos
      dsimp only
      omega
    · exact ih _ _

theorem pairwise_bindings (text : List Char) : (bindings text).Pairwise fun s t => s.1 < t.1 := by
  refine List.pairwise_flatMap.mpr ⟨?_, ?_⟩
  · rintro ⟨p, s⟩ -
    cases s with
    | code chars => exact pairwise_bindingsOfCode _ _ _
    | region r => exact .nil
  · refine (Segment.pairwise_locate .origin (ofText text)).imp ?_
    rintro ⟨p, s⟩ ⟨q, t⟩ hpq ⟨k, name⟩ hk ⟨l, other⟩ hl
    cases s with
    | region r => cases hk
    | code chars =>
      cases t with
      | region r => cases hl
      | code others =>
        obtain ⟨us, vs, rfl, rfl, -⟩ := mem_bindingsOfCode_iff.mp hk
        obtain ⟨us', vs', -, rfl, -⟩ := mem_bindingsOfCode_iff.mp hl
        have := (':').utf8Size_pos
        simp [Segment.text] at hpq ⊢
        omega

theorem mem_bindings_iff {text name : List Char} {k : Nat} :
    (k, name) ∈ bindings text ↔ BindsAt text k name := by
  rw [bindings, List.mem_flatMap]
  constructor
  · rintro ⟨⟨p, s⟩, hm, hk⟩
    obtain ⟨front, back, hs, rfl⟩ := mem_locate_iff.mp hm
    cases s with
    | region r => cases hk
    | code chars =>
      obtain ⟨us, vs, rfl, rfl, hb, hn⟩ := mem_bindingsOfCode_iff.mp hk
      have ht : text = (join front ++ us) ++ ':' :: (vs ++ join back) := by
        rw [← join_ofText text, hs]
        simp [Segment.text]
      have hplace : (Position.origin.after (join front)).byte + byteLength us =
          byteLength (join front ++ us) := by simp [Position.origin]
      rw [hplace]
      refine ⟨(inCode_iff ht).mpr ⟨front, us, vs, back, hs, rfl, rfl⟩, _, _, ht, rfl, ?_, ?_⟩
      · cases us with
        | nil =>
          rw [List.append_nil]
          exact getLast?_ne_colon hs rfl
        | cons d us => simpa [List.getLast?_append, List.getLast?_cons] using hb
      · rw [← identifierAt?_eq_some_iff, identifierAt?_append (isIdentifierRest_head?_join hs), hn]
  · rintro ⟨hcode, before, after, ht, rfl, hb, hn⟩
    obtain ⟨front, us, vs, back, hs, rfl, rfl⟩ := (inCode_iff ht).mp hcode
    refine ⟨_, mem_locate_iff.mpr ⟨front, back, hs, rfl⟩, mem_bindingsOfCode_iff.mpr
      ⟨us, vs, rfl, by simp [Position.origin], ?_, ?_⟩⟩
    · cases us with
      | nil => simp
      | cons d us => simpa [List.getLast?_append, List.getLast?_cons] using hb
    · rw [← identifierAt?_append (isIdentifierRest_head?_join hs) vs]
      exact identifierAt?_eq_some_iff.mpr hn

theorem eraseDups_map_snd_bindings (text : List Char) :
    ((bindings text).map (·.2)).eraseDups = parametersOfText text := by
  have hsegment (place : Position × Segment) :
      (Segment.bindings place).map (·.2) = place.2.parameters := by
    obtain ⟨p, s⟩ := place
    cases s with
    | code chars => exact map_snd_bindingsOfCode _ _ _
    | region r => rfl
  rw [parametersOfText, bindings, List.map_flatMap]
  simp only [hsegment]
  rw [← map_locate_snd .origin (ofText text), List.flatMap_map, map_locate_snd]

theorem listsBindings_parametersOfText (text : List Char) :
    ListsBindings text (parametersOfText text) := by
  rw [← eraseDups_map_snd_bindings]
  refine ⟨nodup_eraseDups _, fun name => ?_, ?_⟩
  · rw [List.mem_eraseDups]
    simp [mem_bindings_iff]
  · simpa only [mem_bindings_iff] using pairwise_eraseDups (pairwise_bindings text)

theorem ListsBindings.unique {text : List Char} {names others : List (List Char)}
    (h : ListsBindings text names) (ho : ListsBindings text others) : names = others := by
  refine List.Perm.eq_of_pairwise ?_ h.ordered ho.ordered
    ((List.perm_ext_iff_of_nodup h.distinct ho.distinct).mpr fun name =>
      (h.bound name).trans (ho.bound name).symm)
  -- Of two names, each of which is first, each would be in front of the other.
  rintro name other - - ⟨k, hk, hfirst⟩ ⟨l, hl, hother⟩
  exact absurd (hfirst l hl) (Nat.lt_asymm (hother k hk))

/-- The parameters are the names that the code of a statement binds. -/
theorem eq_parameters_iff (sql : String) (names : List String) :
    names = parameters sql ↔ ListsBindings sql.toList (names.map String.toList) := by
  have hlists := listsBindings_parametersOfText sql.toList
  have hmap : (parameters sql).map String.toList = parametersOfText sql.toList := by
    simp [parameters, Function.comp_def]
  constructor
  · rintro rfl
    rwa [hmap]
  · intro h
    have he := h.unique hlists
    rw [← hmap] at he
    exact List.map_injective_iff.mpr (fun _ _ => String.toList_inj.mp) he

end NamedSql
