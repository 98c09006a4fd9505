import NamedSql.Proofs.LineStarts

namespace NamedSql

/-- A text with a carriage return in front of each newline. -/
def crlf (text : List Char) : List Char :=
  text.flatMap fun c => if c = '\n' then ['\r', '\n'] else [c]

def withoutReturns (text : List Char) : List Char :=
  text.filter (· != '\r')

@[simp] theorem crlf_nil : crlf [] = [] := rfl

theorem crlf_newline (cs : List Char) : crlf ('\n' :: cs) = '\r' :: '\n' :: crlf cs := rfl

theorem crlf_cons_of_ne {c : Char} (h : c ≠ '\n') (cs : List Char) :
    crlf (c :: cs) = c :: crlf cs := by
  simp [crlf, h]

@[simp] theorem crlf_append (as bs : List Char) : crlf (as ++ bs) = crlf as ++ crlf bs :=
  List.flatMap_append

theorem crlf_eq_self {cs : List Char} (h : '\n' ∉ cs) : crlf cs = cs := by
  induction cs with
  | nil => rfl
  | cons c cs ih =>
    rw [List.mem_cons, not_or] at h
    rw [crlf_cons_of_ne (Ne.symm h.1), ih h.2]

theorem getLast?_crlf (cs : List Char) : (crlf cs).getLast? = cs.getLast? := by
  rcases List.eq_nil_or_concat cs with rfl | ⟨front, c, rfl⟩
  · rfl
  · rw [List.concat_eq_append, crlf_append]
    by_cases hc : c = '\n'
    · simp [hc, crlf_newline]
    · simp [crlf_cons_of_ne hc]

theorem withoutReturns_append (as bs : List Char) :
    withoutReturns (as ++ bs) = withoutReturns as ++ withoutReturns bs :=
  List.filter_append ..

theorem withoutReturns_eq_self {cs : List Char} (h : '\r' ∉ cs) : withoutReturns cs = cs :=
  List.filter_eq_self.mpr fun _ hc => bne_iff_ne.mpr fun he => h (he ▸ hc)

theorem withoutReturns_crlf {cs : List Char} (h : '\r' ∉ cs) : withoutReturns (crlf cs) = cs := by
  induction cs with
  | nil => rfl
  | cons c cs ih =>
    rw [List.mem_cons, not_or] at h
    by_cases hc : c = '\n'
    · rw [hc, crlf_newline]
      simpa [withoutReturns] using ih h.2
    · rw [crlf_cons_of_ne hc]
      simpa [withoutReturns, Ne.symm h.1] using ih h.2

theorem count_newline_withoutReturns (cs : List Char) :
    (withoutReturns cs).count '\n' = cs.count '\n' :=
  List.count_filter (by decide)

theorem isBlank_return : isBlank '\r' := by decide

theorem isBlank_of_mem_withoutReturns {cs : List Char} (h : ∀ c ∈ cs, isBlank c) :
    ∀ c ∈ withoutReturns cs, isBlank c :=
  fun c hc => h c (List.mem_filter.mp hc).1

theorem withoutReturns_singleton {c : Char} (h : isBlank c = false) : withoutReturns [c] = [c] := by
  refine withoutReturns_eq_self fun hm => ?_
  rw [← List.mem_singleton.mp hm, isBlank_return] at h
  cases h

theorem withoutReturns_trimStart (cs : List Char) :
    withoutReturns (trimStart cs) = trimStart (withoutReturns cs) := by
  induction cs with
  | nil => rfl
  | cons c cs ih =>
    have hw := withoutReturns_append [c] cs
    rw [List.singleton_append] at hw
    cases hc : isBlank c with
    | true =>
      have hb : ∀ d ∈ [c], isBlank d := by simpa using hc
      rw [hw, ← List.singleton_append, trimStart_append_of_all hb, ih, trimStart_append_of_all (isBlank_of_mem_withoutReturns hb)]
    | false =>
      rw [withoutReturns_singleton hc] at hw
      simp [trimStart, hc, hw]

theorem withoutReturns_trimEnd (cs : List Char) :
    withoutReturns (trimEnd cs) = trimEnd (withoutReturns cs) := by
  induction cs using List.reverseRecOn with
  | nil => rfl
  | append_singleton cs c ih =>
    rw [withoutReturns_append]
    cases hc : isBlank c with
    | true =>
      have hb : ∀ d ∈ [c], isBlank d := by simpa using hc
      rw [trimEnd, dropEndWhile_append_of_all hb, ← trimEnd, ih, trimEnd, trimEnd,
        dropEndWhile_append_of_all (isBlank_of_mem_withoutReturns hb)]
    | false =>
      have hl (as : List Char) : trimEnd (as ++ [c]) = as ++ [c] :=
        dropEndWhile_eq_self (by simpa using hc)
      rw [withoutReturns_singleton hc, hl, hl, withoutReturns_append, withoutReturns_singleton hc]

theorem withoutReturns_trim (cs : List Char) :
    withoutReturns (trim cs) = trim (withoutReturns cs) := by
  rw [trim, withoutReturns_trimEnd, withoutReturns_trimStart, trim]

theorem tamer_crlf (cs : List Char) : Tamer (crlf cs) cs := by
  induction cs with
  | nil => exact .refl []
  | cons c cs ih =>
    by_cases hc : c = '\n'
    · rw [hc, crlf_newline]
      exact .of_inert (by simpa using by decide) (by simpa using by decide)
    · rw [crlf_cons_of_ne hc]
      exact ih.cons c

namespace Region

theorem isPrefixOf_crlf {needle : List Char} (hn : '\n' ∉ needle) (hr : '\r' ∉ needle)
    (cs : List Char) : needle.isPrefixOf (crlf cs) = needle.isPrefixOf cs := by
  induction needle generalizing cs with
  | nil => simp
  | cons d needle ih =>
    rw [List.mem_cons, not_or] at hn hr
    cases cs with
    | nil => rfl
    | cons c cs =>
      by_cases hc : c = '\n'
      · rw [hc, crlf_newline]
        have hdr : (d == '\r') = false := beq_eq_false_iff_ne.mpr (Ne.symm hr.1)
        have hdn : (d == '\n') = false := beq_eq_false_iff_ne.mpr (Ne.symm hn.1)
        simp [List.isPrefixOf, hdr, hdn]
      · rw [crlf_cons_of_ne hc, List.isPrefixOf, List.isPrefixOf, ih hn.2 hr.2]

theorem through?_crlf {needle : List Char} (hne : needle ≠ []) (hn : '\n' ∉ needle)
    (hr : '\r' ∉ needle) (cs : List Char) :
    through? needle (crlf cs) = (through? needle cs).map (Prod.map crlf crlf) := by
  induction cs with
  | nil => simp [through?, hne]
  | cons c cs ih =>
    by_cases hc : c = '\n'
    · obtain ⟨d, needle, rfl⟩ := List.exists_cons_of_ne_nil hne
      rw [List.mem_cons, not_or] at hn hr
      rw [hc, crlf_newline, through?_cons_of_ne (Ne.symm hr.1), through?_cons_of_ne (Ne.symm hn.1),
        through?_cons_of_ne (Ne.symm hn.1), ih, Option.map_map, Option.map_map, Option.map_map]
      rfl
    · have hp := isPrefixOf_crlf hn hr (c :: cs)
      rw [crlf_cons_of_ne hc] at hp ⊢
      rw [through?, through?, hp]
      split
      · rename_i h
        obtain ⟨rest, hrest⟩ := List.isPrefixOf_iff_prefix.mp h
        rw [← crlf_cons_of_ne hc, ← hrest, crlf_append, crlf_eq_self hn, List.drop_left,
          List.drop_left, Option.map_some, Prod.map_apply, crlf_eq_self hn]
      · rw [ih, Option.map_map, Option.map_map]
        refine congrArg (Option.map · _) (funext fun x => ?_)
        exact Prod.ext (crlf_cons_of_ne hc x.1).symm rfl

theorem throughQuote?_crlf_content {quote c : Char} (hn : quote ≠ '\n') (hr : quote ≠ '\r')
    (hc : c ≠ quote) (cs : List Char) :
    throughQuote? quote (crlf (c :: cs)) =
      (throughQuote? quote (crlf cs)).map (Prod.map (crlf [c] ++ ·) id) := by
  by_cases h : c = '\n'
  · rw [h, crlf_newline, throughQuote?_content (Ne.symm hr), throughQuote?_content (Ne.symm hn),
      Option.map_map]
    rfl
  · rw [crlf_cons_of_ne h, throughQuote?_content hc, crlf_cons_of_ne h]
    rfl

theorem throughQuote?_crlf {quote : Char} (hn : quote ≠ '\n') (hr : quote ≠ '\r')
    (cs : List Char) :
    throughQuote? quote (crlf cs) = (throughQuote? quote cs).map (Prod.map crlf crlf) := by
  have hmap (c : Char) (found : Option (List Char × List Char))
      {put : List Char × List Char → List Char × List Char} (h : ∀ x, put x = (c :: x.1, x.2)) :
      (found.map (Prod.map crlf crlf)).map (Prod.map (crlf [c] ++ ·) id) =
        (found.map put).map (Prod.map crlf crlf) := by
    rw [Option.map_map, Option.map_map]
    refine congrArg (Option.map · _) (funext fun x => ?_)
    rw [Function.comp_apply, Function.comp_apply, h]
    exact Prod.ext (crlf_append [c] x.1).symm rfl
  fun_induction throughQuote? quote cs with
  | case1 => rfl
  | case2 => simp [crlf_cons_of_ne hn, throughQuote?]
  | case3 c hc => rw [throughQuote?_crlf_content hn hr hc]; rfl
  | case4 c d cs hc ih => rw [throughQuote?_crlf_content hn hr hc, ih, hmap c _ fun _ => rfl]
  | case5 c d cs hc hd =>
    obtain rfl := Classical.not_not.mp hc
    have hh : (crlf (d :: cs)).head? ≠ some c := by
      by_cases h : d = '\n'
      · simpa [h, crlf_newline] using Ne.symm hr
      · simpa [crlf_cons_of_ne h] using hd
    rw [crlf_cons_of_ne hn, throughQuote?_close hh, Option.map_some, Prod.map_apply,
      crlf_cons_of_ne hn, crlf_nil]
  | case6 c d cs hc hd ih =>
    obtain rfl := Classical.not_not.mp hc
    obtain rfl := Classical.not_not.mp hd
    rw [crlf_cons_of_ne hn, crlf_cons_of_ne hn, throughQuote?_doubled, ih, Option.map_map,
      Option.map_map]
    refine congrArg (Option.map · _) (funext fun x => ?_)
    simp [crlf_cons_of_ne hn]

theorem Kind.return_not_mem_opening {kind : Kind} (h : kind.Tagged) : '\r' ∉ kind.opening := by
  cases kind with
  | dollarQuoted tag =>
    have ht : '\r' ∉ tag := by
      rcases h with rfl | h
      · exact List.not_mem_nil
      · intro hm
        exact absurd (all_rest_of_isIdentifier h _ hm) (by decide)
    simpa [opening] using ht
  | _ => decide

theorem Kind.close?_crlf {kind : Kind} (ht : kind.Tagged) (hk : kind ≠ .lineComment)
    (cs : List Char) : kind.close? (crlf cs) = (kind.close? cs).map (Prod.map crlf crlf) := by
  cases kind with
  | singleQuoted => exact throughQuote?_crlf (by decide) (by decide) cs
  | doubleQuoted => exact throughQuote?_crlf (by decide) (by decide) cs
  | lineComment => exact absurd rfl hk
  | blockComment => exact through?_crlf (by decide) (by decide) (by decide) cs
  | dollarQuoted tag =>
    exact through?_crlf (List.cons_ne_nil _ _) (newline_not_mem_opening ht)
      (return_not_mem_opening ht) cs

/-- The region with carriage returns in front of its newlines. -/
theorem WellFormed.crlf {r : Region} (h : r.WellFormed) (hk : r.kind ≠ .lineComment) :
    (⟨r.kind, NamedSql.crlf r.text, r.terminated⟩ : Region).WellFormed := by
  obtain ⟨inner, hi, hc⟩ := h.closes
  refine ⟨h.tagged, NamedSql.crlf inner, ?_, ?_⟩
  · rw [hi, crlf_append, crlf_eq_self (Kind.newline_not_mem_opening h.tagged)]
  · rw [Kind.close?_crlf h.tagged hk, hc]
    dsimp only
    split <;> rfl

end Region

end NamedSql
