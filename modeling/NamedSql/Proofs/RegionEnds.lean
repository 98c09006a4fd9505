import NamedSql.Proofs.Lookahead
import NamedSql.Proofs.Trim

namespace NamedSql

namespace Region

/-- The region without the blanks at its end, if it was never closed. -/
def trimOpen (r : Region) : Region :=
  if r.terminated then r else { r with text := trimEnd r.text }

@[simp] theorem trimOpen_kind (r : Region) : r.trimOpen.kind = r.kind := by
  unfold trimOpen
  split <;> rfl

@[simp] theorem trimOpen_terminated (r : Region) : r.trimOpen.terminated = r.terminated := by
  unfold trimOpen
  split <;> rfl

theorem trimOpen_of_terminated {r : Region} (h : r.terminated) : r.trimOpen = r :=
  if_pos h

theorem trimOpen_text_of_open {r : Region} (h : r.terminated = false) :
    r.trimOpen.text = trimEnd r.text := by
  simp [trimOpen, h]

theorem Kind.ne_lineComment {kind : Kind} (h : kind.isComment = false) : kind ≠ .lineComment := by
  rintro rfl
  cases h

theorem suffix_of_through? {needle text before rest : List Char}
    (h : through? needle text = some (before, rest)) : needle <:+ before := by
  induction text generalizing before with
  | nil =>
    simp only [through?, Option.ite_none_right_eq_some, List.isEmpty_iff] at h
    simp [h.1]
  | cons c cs ih =>
    simp only [through?] at h
    split at h
    · cases h
      exact List.suffix_refl _
    · obtain ⟨⟨b, r⟩, hb, he⟩ := Option.map_eq_some_iff.mp h
      cases he
      exact (ih hb).trans (List.suffix_cons c b)

theorem getLast?_of_throughQuote? {quote : Char} {text before rest : List Char}
    (h : throughQuote? quote text = some (before, rest)) : before.getLast? = some quote := by
  fun_induction throughQuote? quote text generalizing before with
  | case1 => cases h
  | case2 => cases h; rfl
  | case3 => cases h
  | case4 c d cs hc ih =>
    obtain ⟨⟨b, r⟩, hb, he⟩ := Option.map_eq_some_iff.mp h
    cases he
    simp [List.getLast?_cons, ih hb]
  | case5 c d cs hc hd =>
    cases h
    simpa using hc
  | case6 c d cs hc hd ih =>
    obtain ⟨⟨b, r⟩, hb, he⟩ := Option.map_eq_some_iff.mp h
    cases he
    simp [List.getLast?_cons, ih hb]

/-- A region is closed by the character that it is opened by. -/
theorem Kind.getLast?_of_close? {kind : Kind} {body inner rest : List Char}
    (hk : kind ≠ .lineComment) (h : kind.close? body = some (inner, rest)) :
    inner.getLast? = kind.opening.head? := by
  cases kind with
  | singleQuoted => exact getLast?_of_throughQuote? h
  | doubleQuoted => exact getLast?_of_throughQuote? h
  | lineComment => exact absurd rfl hk
  | blockComment =>
    obtain ⟨front, rfl⟩ := suffix_of_through? h
    simp [opening]
  | dollarQuoted tag =>
    obtain ⟨front, rfl⟩ := suffix_of_through? h
    simp [opening, List.getLast?_cons]

theorem Kind.exists_opening_cons (kind : Kind) : ∃ c cs, kind.opening = c :: cs ∧
    isBlank c = false ∧ isIdentifierRest c = false := by
  cases kind <;> exact ⟨_, _, rfl, by decide, by decide⟩

theorem Kind.isBlank_getLast?_opening (kind : Kind) :
    ∀ c ∈ kind.opening.getLast?, isBlank c = false := by
  cases kind <;> simp [opening, List.getLast?_cons, isBlank]

theorem Kind.close?_append {kind : Kind} {inner before rest more : List Char}
    (hk : kind ≠ .lineComment) (h : kind.close? inner = some (before, rest))
    (hm : kind.Released more) : kind.close? (inner ++ more) = some (before, rest ++ more) := by
  cases kind with
  | singleQuoted => exact throughQuote?_append h fun _ => hm
  | doubleQuoted => exact throughQuote?_append h fun _ => hm
  | lineComment => exact absurd rfl hk
  | blockComment => exact through?_append (by simp) h more
  | dollarQuoted tag => exact through?_append (by simp) h more

/-- A closing delimiter in a first part would close the whole as well. -/
theorem Kind.close?_eq_none_of_append {kind : Kind} {inner more : List Char}
    (hk : kind ≠ .lineComment) (hm : kind.Released more) (h : kind.close? (inner ++ more) = none) :
    kind.close? inner = none := by
  cases ho : kind.close? inner with
  | none => rfl
  | some closed => simp [Kind.close?_append hk ho hm] at h

/-- A line comment is all that holds no newline. -/
theorem Kind.close?_lineComment_iff {inner : List Char} :
    Kind.lineComment.close? inner = some (inner, []) ↔ ∀ c ∈ inner, c ≠ '\n' := by
  simp only [close?, Option.some.injEq, Prod.mk.injEq, List.takeWhile_eq_self_iff,
    List.dropWhile_eq_nil_iff, and_self, bne_iff_ne]

theorem Kind.released_of_inert {kind : Kind} (hk : kind ≠ .lineComment) {rest : List Char}
    (h : ∀ c ∈ rest.head?, isInert c) : kind.Released rest := by
  cases kind with
  | singleQuoted => exact fun hs => absurd rfl (ne_of_isInert (h _ hs)).2.2.1
  | doubleQuoted => exact fun hd => absurd rfl (ne_of_isInert (h _ hd)).2.2.2.1
  | lineComment => exact absurd rfl hk
  | blockComment => trivial
  | dollarQuoted tag => trivial

namespace WellFormed
variable {r : Region}

theorem exists_text_cons (h : r.WellFormed) : ∃ c cs, r.text = c :: cs ∧
    isBlank c = false ∧ isIdentifierRest c = false := by
  obtain ⟨inner, hi, -⟩ := h.closes
  obtain ⟨c, cs, hc, hb, hr⟩ := r.kind.exists_opening_cons
  exact ⟨c, cs ++ inner, by rw [hi, hc, List.cons_append], hb, hr⟩

theorem head?_text (h : r.WellFormed) : r.text.head? = r.kind.opening.head? := by
  obtain ⟨inner, hi, -⟩ := h.closes
  obtain ⟨c, cs, hc, -⟩ := r.kind.exists_opening_cons
  rw [hi, hc]
  rfl

/-- Only a line comment needs no closing delimiter. -/
theorem kind_ne_lineComment (h : r.WellFormed) (ht : r.terminated = false) :
    r.kind ≠ .lineComment := by
  intro hk
  obtain ⟨inner, -, hc⟩ := h.closes
  simp [hk, ht, Kind.close?] at hc

theorem getLast?_text (h : r.WellFormed) (ht : r.terminated) (hk : r.kind ≠ .lineComment) :
    r.text.getLast? = r.text.head? := by
  obtain ⟨inner, hi, hc⟩ := h.closes
  rw [if_pos ht] at hc
  obtain ⟨c, cs, ho, -⟩ := r.kind.exists_opening_cons
  rw [hi, List.getLast?_append, Kind.getLast?_of_close? hk hc, ho]
  rfl

theorem isBlank_getLast?_text (h : r.WellFormed) (ht : r.terminated) (hk : r.kind ≠ .lineComment) :
    ∀ c ∈ r.text.getLast?, isBlank c = false := by
  obtain ⟨c, cs, hc, hb, -⟩ := h.exists_text_cons
  rw [h.getLast?_text ht hk, hc]
  simpa using hb

/-- An open region stays one region, and open, when blanks at its end are dropped. -/
theorem trimOpen (h : r.WellFormed) : r.trimOpen.WellFormed := by
  cases ht : r.terminated with
  | true => rwa [trimOpen_of_terminated ht]
  | false =>
    obtain ⟨inner, hi, hc⟩ := h.closes
    have hk := h.kind_ne_lineComment ht
    refine ⟨by simpa using h.tagged, trimEnd inner, ?_, ?_⟩
    · rw [trimOpen_text_of_open ht, hi, trimOpen_kind,
        trimEnd_append r.kind.isBlank_getLast?_opening]
    · rw [trimOpen_kind, trimOpen_terminated]
      obtain ⟨dropped, hd, hb⟩ := dropEndWhile_append isBlank inner
      have hr : r.kind.Released dropped := Kind.released_of_inert hk fun c hc =>
        isInert_of_isBlank (hb c (List.mem_of_mem_head? hc))
      rw [hd, ht] at hc
      rw [trimEnd, Kind.close?_eq_none_of_append hk hr hc, ht]
      rfl

end WellFormed

end Region

end NamedSql
