import Mathlib.Data.List.TakeWhile
import NamedSql.Region

namespace NamedSql.Region

/-- A dollar tag is empty or an identifier. Other kinds have none. -/
def Kind.Tagged : Kind → Prop
  | .dollarQuoted tag => tag = [] ∨ isIdentifier tag
  | _ => True

/-- A dollar sign directly after a name character opens nothing. -/
def Kind.Fits (before : Option Char) : Kind → Prop
  | .dollarQuoted _ => before.any isNameChar = false
  | _ => True

/-- What follows a closed region does not prolong it: a second quote would be content, and a line
comment goes on until its line ends. -/
def Kind.Released : Kind → List Char → Prop
  | .singleQuoted, rest => rest.head? ≠ some '\''
  | .doubleQuoted, rest => rest.head? ≠ some '"'
  | .lineComment, rest => ∀ c ∈ rest.head?, c = '\n'
  | _, _ => True

/-- Nothing follows a region that was never closed. -/
def Released (r : Region) (rest : List Char) : Prop :=
  if r.terminated then r.kind.Released rest else rest = []

/-- The text of the region is one region of its kind, as far as the text alone can tell. -/
structure WellFormed (r : Region) : Prop where
  tagged : r.kind.Tagged
  closes : ∃ inner, r.text = r.kind.opening ++ inner ∧
    r.kind.close? inner = if r.terminated then some (inner, []) else none

theorem length_le_of_through? {needle text before rest : List Char}
    (h : through? needle text = some (before, rest)) : needle.length ≤ before.length := by
  induction text generalizing before with
  | nil =>
    simp only [through?, Option.ite_none_right_eq_some, List.isEmpty_iff] at h
    simp [h.1]
  | cons c cs ih =>
    simp only [through?] at h
    split at h
    · cases h
      exact Nat.le_refl _
    · obtain ⟨⟨b, r⟩, hb, he⟩ := Option.map_eq_some_iff.mp h
      cases he
      exact Nat.le_succ_of_le (ih hb)

/-- Text added behind does not move the first closing delimiter. -/
theorem through?_append {needle text before rest : List Char} (hn : needle ≠ [])
    (h : through? needle text = some (before, rest)) (more : List Char) :
    through? needle (text ++ more) = some (before, rest ++ more) := by
  induction text generalizing before with
  | nil => simp [through?, hn] at h
  | cons c cs ih =>
    simp only [through?] at h
    split at h
    · rename_i hp
      cases h
      have hp' := List.isPrefixOf_iff_prefix.mp hp
      have hq : needle.isPrefixOf (c :: (cs ++ more)) :=
        List.isPrefixOf_iff_prefix.mpr (hp'.trans (List.prefix_append (c :: cs) more))
      rw [List.cons_append, through?, if_pos hq, ← List.cons_append,
        List.drop_append_of_le_length hp'.length_le]
    · rename_i hp
      obtain ⟨⟨b, r⟩, hb, he⟩ := Option.map_eq_some_iff.mp h
      cases he
      -- A delimiter that starts here and runs into `more` would end after the one found in `cs`.
      have hq : ¬ needle.isPrefixOf (c :: (cs ++ more)) := by
        intro hq
        have hlen : needle.length ≤ (c :: cs).length := by
          have := length_le_of_through? hb
          have := congrArg List.length (append_of_through? hb)
          simp only [List.length_append, List.length_cons] at *
          omega
        exact hp (List.isPrefixOf_iff_prefix.mpr (List.prefix_of_prefix_length_le
          (List.isPrefixOf_iff_prefix.mp hq) (List.prefix_append (c :: cs) more) hlen))
      rw [List.cons_append, through?, if_neg hq, ih hb]
      rfl

theorem through?_append_iff {needle text rest : List Char} (hn : needle ≠ []) :
    through? needle (text ++ rest) = some (text, rest) ↔
      through? needle text = some (text, []) := by
  refine ⟨fun h => ?_, fun h => through?_append hn h rest⟩
  induction text with
  | nil =>
    have hlen := length_le_of_through? h
    have hpos := List.length_pos_iff.mpr hn
    simp only [List.length_nil] at hlen
    omega
  | cons c cs ih =>
    rw [List.cons_append, through?] at h
    split at h
    · have he : needle = c :: cs := by simpa using congrArg (Option.map Prod.fst) h
      subst he
      simp [through?]
    · rename_i hp
      obtain ⟨⟨b, r⟩, hb, he⟩ := Option.map_eq_some_iff.mp h
      cases he
      have hq : ¬ needle.isPrefixOf (c :: cs) := fun hq => hp (List.isPrefixOf_iff_prefix.mpr
        ((List.isPrefixOf_iff_prefix.mp hq).trans (List.prefix_append (c :: cs) rest)))
      rw [through?, if_neg hq, ih hb]
      rfl

theorem throughQuote?_content {quote c : Char} (hc : c ≠ quote) (cs : List Char) :
    throughQuote? quote (c :: cs) =
      (throughQuote? quote cs).map fun (before, rest) => (c :: before, rest) := by
  cases cs <;> simp [throughQuote?, hc]

theorem throughQuote?_close {quote : Char} {cs : List Char} (h : cs.head? ≠ some quote) :
    throughQuote? quote (quote :: cs) = some ([quote], cs) := by
  cases cs with
  | nil => simp [throughQuote?]
  | cons d ds => simpa [throughQuote?] using h

theorem throughQuote?_doubled (quote : Char) (cs : List Char) :
    throughQuote? quote (quote :: quote :: cs) =
      (throughQuote? quote cs).map fun (before, rest) => (quote :: quote :: before, rest) := by
  simp [throughQuote?]

/-- Text added behind does not move the closing quote, unless it doubles it. -/
theorem throughQuote?_append {quote : Char} {text before rest more : List Char}
    (h : throughQuote? quote text = some (before, rest))
    (hm : rest = [] → more.head? ≠ some quote) :
    throughQuote? quote (text ++ more) = some (before, rest ++ more) := by
  fun_induction throughQuote? quote text generalizing before rest with
  | case1 => cases h
  | case2 =>
    cases h
    exact throughQuote?_close (hm rfl)
  | case3 => cases h
  | case4 c d cs hc ih =>
    obtain ⟨⟨b, r⟩, hb, he⟩ := Option.map_eq_some_iff.mp h
    cases he
    rw [List.cons_append, throughQuote?_content hc, ih hb hm]
    rfl
  | case5 c d cs hc hd =>
    obtain rfl := Classical.not_not.mp hc
    cases h
    exact throughQuote?_close (by simpa using hd)
  | case6 c d cs hc hd ih =>
    obtain rfl := Classical.not_not.mp hc
    obtain rfl := Classical.not_not.mp hd
    obtain ⟨⟨b, r⟩, hb, he⟩ := Option.map_eq_some_iff.mp h
    cases he
    rw [List.cons_append, List.cons_append, throughQuote?_doubled, ih hb hm]
    rfl

theorem throughQuote?_ne_some_nil {quote : Char} {text rest : List Char} :
    throughQuote? quote text ≠ some ([], rest) := by
  fun_cases throughQuote? quote text <;> simp

theorem throughQuote?_append_iff {quote : Char} {text rest : List Char} :
    throughQuote? quote (text ++ rest) = some (text, rest) ↔
      throughQuote? quote text = some (text, []) ∧ rest.head? ≠ some quote := by
  refine ⟨fun h => ?_, fun ⟨h, hr⟩ => throughQuote?_append h fun _ => hr⟩
  fun_induction throughQuote? quote text with
  | case1 => exact absurd h throughQuote?_ne_some_nil
  | case2 =>
    refine ⟨rfl, fun hr => ?_⟩
    obtain ⟨ds, rfl⟩ := List.head?_eq_some_iff.mp hr
    rw [List.singleton_append, throughQuote?_doubled] at h
    simp at h
  | case3 c hc =>
    rw [List.singleton_append, throughQuote?_content hc] at h
    simp [throughQuote?_ne_some_nil] at h
  | case4 c d cs hc ih =>
    rw [List.cons_append, throughQuote?_content hc] at h
    obtain ⟨hi, hr⟩ := ih (by simpa using h)
    exact ⟨by rw [hi]; rfl, hr⟩
  | case5 c d cs hc hd =>
    obtain rfl := Classical.not_not.mp hc
    rw [List.cons_append, throughQuote?_close (by simpa using hd)] at h
    simp at h
  | case6 c d cs hc hd ih =>
    obtain rfl := Classical.not_not.mp hc
    obtain rfl := Classical.not_not.mp hd
    rw [List.cons_append, List.cons_append, throughQuote?_doubled] at h
    obtain ⟨hi, hr⟩ := ih (by simpa using h)
    exact ⟨by rw [hi]; rfl, hr⟩

theorem Kind.close?_append_iff {kind : Kind} {inner rest : List Char} :
    kind.close? (inner ++ rest) = some (inner, rest) ↔
      kind.close? inner = some (inner, []) ∧ kind.Released rest := by
  cases kind with
  | singleQuoted | doubleQuoted => exact throughQuote?_append_iff
  | blockComment => exact (through?_append_iff (by simp)).trans (and_true _).symm.to_iff
  | dollarQuoted tag => exact (through?_append_iff (by simp)).trans (and_true _).symm.to_iff
  | lineComment =>
    simp only [close?, Released, Option.some.injEq, Prod.mk.injEq]
    constructor
    · intro h
      obtain ⟨ht, hd⟩ := h
      have hall : ∀ c ∈ inner, (c != '\n') = true := by
        have := List.all_takeWhile (l := inner ++ rest) (p := (· != '\n'))
        rw [ht] at this
        exact List.all_eq_true.mp this
      rw [List.dropWhile_append_of_pos hall] at hd
      refine ⟨⟨List.takeWhile_eq_self_iff.mpr hall, List.dropWhile_eq_nil_iff.mpr hall⟩, ?_⟩
      intro c hc
      have := List.head?_dropWhile_not (· != '\n') rest
      rw [hd, hc] at this
      simpa using this
    · intro h
      obtain ⟨⟨ht, -⟩, hr⟩ := h
      have hall := List.takeWhile_eq_self_iff.mp ht
      rw [List.takeWhile_append_of_pos hall, List.dropWhile_append_of_pos hall]
      cases rest with
      | nil => simp
      | cons c cs => simp [hr c rfl]

theorem tag?_append {tag : List Char} (ht : tag = [] ∨ isIdentifier tag) (rest : List Char) :
    tag? (tag ++ '$' :: rest) = some tag := by
  have hall : ∀ c ∈ tag, isIdentifierRest c := by
    rcases ht with rfl | ht
    · simp
    · exact all_rest_of_isIdentifier ht
  have hd : isIdentifierRest '$' = false := by decide
  simp [tag?, List.takeWhile_append_of_pos hall, List.dropWhile_append_of_pos hall, hd, ht]

theorem tagged_of_tag? {text tag : List Char} (h : tag? text = some tag) :
    tag = [] ∨ isIdentifier tag := by
  simp only [tag?] at h
  split at h
  · simp only [Option.ite_none_right_eq_some, Bool.or_eq_true, List.isEmpty_iff,
      Option.some.injEq] at h
    obtain ⟨ht, rfl⟩ := h
    exact ht
  · cases h

theorem Kind.opens?_opening {kind : Kind} {before : Option Char} (ht : kind.Tagged)
    (hf : kind.Fits before) (body : List Char) :
    opens? before (kind.opening ++ body) = some kind := by
  cases kind with
  | dollarQuoted tag =>
    have hb : before.any isNameChar = false := hf
    simp [opening, opens?, hb, tag?_append ht body]
  | _ => rfl

theorem Kind.tagged_fits_of_opens? {kind : Kind} {before : Option Char} {text : List Char}
    (h : opens? before text = some kind) : kind.Tagged ∧ kind.Fits before := by
  unfold opens? at h
  split at h
  case h_5 rest =>
    split at h
    · cases h
    · rename_i hb
      obtain ⟨tag, ht, rfl⟩ := Option.map_eq_some_iff.mp h
      exact ⟨tagged_of_tag? ht, by simpa [Fits] using hb⟩
  case h_6 => cases h
  all_goals cases h; exact ⟨trivial, trivial⟩

/-- A scan finds a region exactly where one that is well formed stands in fitting company. -/
theorem scan?_eq_some_iff {before : Option Char} {text rest : List Char} {r : Region} :
    scan? before text = some (r, rest) ↔
      r.text ++ rest = text ∧ r.WellFormed ∧ r.kind.Fits before ∧ r.Released rest := by
  constructor
  · intro h
    refine ⟨append_of_scan? h, ?_⟩
    obtain ⟨kind, hk, hs⟩ := Option.map_eq_some_iff.mp h
    obtain ⟨ht, hf⟩ := Kind.tagged_fits_of_opens? hk
    obtain ⟨body, rfl⟩ := Kind.opening_prefix_of_opens? hk
    rw [List.drop_left] at hs
    unfold ofBody at hs
    split at hs
    · rename_i inner rest' hc
      cases hs
      obtain rfl := Kind.append_of_close? hc
      obtain ⟨hi, hr⟩ := Kind.close?_append_iff.mp hc
      exact ⟨⟨ht, inner, rfl, hi⟩, hf, hr⟩
    · rename_i hc
      cases hs
      exact ⟨⟨ht, body, rfl, hc⟩, hf, rfl⟩
  · obtain ⟨kind, text, terminated⟩ := r
    intro h
    obtain ⟨rfl, ⟨ht, inner, hi, hc⟩, hf, hr⟩ := h
    dsimp only at hi hc hf ht
    subst hi
    have ho := Kind.opens?_opening ht hf (inner ++ rest)
    rw [scan?, List.append_assoc, ho, Option.map_some, List.drop_left, ofBody]
    cases terminated with
    | true => rw [Kind.close?_append_iff.mpr ⟨hc, hr⟩]
    | false =>
      obtain rfl : rest = [] := hr
      rw [List.append_nil, show kind.close? inner = none from hc]

theorem WellFormed.text_ne_nil {r : Region} (h : r.WellFormed) : r.text ≠ [] := by
  obtain ⟨inner, hi, -⟩ := h.closes
  simp [hi, r.kind.opening_ne_nil]

/-- What stands in front matters only to a region that begins with a dollar sign. -/
theorem WellFormed.fits_congr {r : Region} {b b' : Option Char} (h : r.WellFormed)
    (hb : r.text.head? = some '$' → b.any isNameChar = b'.any isNameChar) (hf : r.kind.Fits b) :
    r.kind.Fits b' := by
  obtain ⟨inner, hi, -⟩ := h.closes
  cases hk : r.kind with
  | dollarQuoted tag =>
    rw [hk] at hi hf
    exact (hb (by simp [hi, Kind.opening])).symm.trans hf
  | _ => trivial

end NamedSql.Region
