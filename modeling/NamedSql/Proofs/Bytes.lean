import NamedSql.Text.Position

namespace NamedSql

theorem byteLength_eq_zero_iff {cs : List Char} : byteLength cs = 0 ↔ cs = [] := by
  constructor
  · intro h
    cases cs with
    | nil => rfl
    | cons c cs => exact absurd h (Nat.ne_of_gt (byteLength_pos (List.cons_ne_nil c cs)))
  · intro h
    rw [h, byteLength_nil]

theorem utf8ByteSize_ofList (cs : List Char) :
    (String.ofList cs).utf8ByteSize = byteLength cs := by
  induction cs with
  | nil => rfl
  | cons c cs ih =>
    have hc : String.ofList (c :: cs) = String.singleton c ++ String.ofList cs := by
      rw [String.singleton_eq_ofList, ← String.ofList_append]
      rfl
    rw [hc, String.utf8ByteSize_append, String.utf8ByteSize_singleton, ih, byteLength_cons]

theorem utf8ByteSize_eq_byteLength (s : String) : s.utf8ByteSize = byteLength s.toList := by
  rw [← utf8ByteSize_ofList, String.ofList_toList]

theorem isValid_of_append {s : String} {before after : List Char}
    (h : s.toList = before ++ after) : (String.Pos.Raw.mk (byteLength before)).IsValid s := by
  refine String.Pos.Raw.isValid_iff_exists_append.mpr
    ⟨String.ofList before, String.ofList after, ?_, ?_⟩
  · rw [← String.ofList_append, ← h, String.ofList_toList]
  · rw [← utf8ByteSize_ofList]
    rfl

theorem cutAtByte?_eq_some_iff {offset : Nat} {text before after : List Char} :
    cutAtByte? offset text = some (before, after) ↔
      text = before ++ after ∧ offset = byteLength before := by
  constructor
  · intro h
    fun_induction cutAtByte? offset text generalizing before with
    | case1 =>
      cases h
      exact ⟨rfl, rfl⟩
    | case2 => cases h
    | case3 n c rest hle ih =>
      obtain ⟨⟨b, a⟩, hb, he⟩ := Option.map_eq_some_iff.mp h
      cases he
      obtain ⟨rfl, hn⟩ := ih hb
      refine ⟨rfl, ?_⟩
      rw [byteLength_cons]
      omega
    | case4 => cases h
  · intro h
    obtain ⟨rfl, rfl⟩ := h
    induction before with
    | nil => cases after <;> rfl
    | cons c cs ih =>
      have hc := c.utf8Size_pos
      obtain ⟨n, hn⟩ : ∃ n, byteLength (c :: cs) = n + 1 :=
        ⟨byteLength (c :: cs) - 1, by simp; omega⟩
      have hle : c.utf8Size ≤ n + 1 := by simp at hn; omega
      have hsub : n + 1 - c.utf8Size = byteLength cs := by simp at hn; omega
      rw [hn, List.cons_append, cutAtByte?, if_pos hle, hsub, ih]
      rfl

/-- Of two ways to cut a text, the one with the longer first part cuts the other's second part. -/
theorem append_of_byteLength_le {as bs cs ds : List Char} (h : as ++ bs = cs ++ ds)
    (hle : byteLength as ≤ byteLength cs) : ∃ es, cs = as ++ es ∧ bs = es ++ ds := by
  rcases List.append_eq_append_iff.mp h with ⟨es, hc, hb⟩ | ⟨es, ha, hd⟩
  · exact ⟨es, hc, hb⟩
  · have he : es = [] := byteLength_eq_zero_iff.mp (by
      have := congrArg byteLength ha
      rw [byteLength_append] at this
      omega)
    subst he
    exact ⟨[], by simpa using ha.symm, by simpa using hd.symm⟩

end NamedSql
