import NamedSql.Proofs.RegionShape
import NamedSql.Text.Blank

namespace NamedSql

/-- Characters that are part of no name and of no delimiter, the end of a line comment apart. -/
def isInert (c : Char) : Bool :=
  !isIdentifierRest c && !(['-', '/', '*', '\'', '"', '$'].contains c)

/-- The character after the identifier characters at the beginning of the text. -/
def afterRun (text : List Char) : Option Char :=
  (text.dropWhile isIdentifierRest).head?

/-- `new` begins with the identifier characters of `old`, and after them shows either what `old`
shows there or something inert. -/
structure Tamer (new old : List Char) : Prop where
  run : new.takeWhile isIdentifierRest = old.takeWhile isIdentifierRest
  after : afterRun new = afterRun old ∨ ∀ c ∈ afterRun new, isInert c

theorem isInert_of_isBlank {c : Char} (h : isBlank c) : isInert c := by
  have hr : isIdentifierRest c = false := by
    cases hc : isIdentifierRest c with
    | false => rfl
    | true =>
      have := toNat_of_isIdentifierRest hc
      simp [isBlank] at h
      omega
  have hd : ∀ d ∈ ['-', '/', '*', '\'', '"', '$'], isBlank d = false := by simp [isBlank]
  have hc : c ∉ ['-', '/', '*', '\'', '"', '$'] := fun hm => by simp [hd c hm] at h
  simp only [isInert, hr, List.contains_eq_mem, hc]
  rfl

theorem isInert_newline : isInert '\n' := by decide

theorem isInert_space : isInert ' ' := by decide

theorem isInert_semicolon : isInert ';' := by decide

theorem isIdentifierRest_of_isInert {c : Char} (h : isInert c) : isIdentifierRest c = false := by
  simp only [isInert, Bool.and_eq_true] at h
  simpa using h.1

theorem ne_of_isInert {c : Char} (h : isInert c) :
    c ≠ '-' ∧ c ≠ '/' ∧ c ≠ '\'' ∧ c ≠ '"' ∧ c ≠ '$' := by
  refine ⟨?_, ?_, ?_, ?_, ?_⟩ <;> rintro rfl <;> simp [isInert] at h

theorem isNameChar_of_isInert {c : Char} (h : isInert c) : isNameChar c = false := by
  obtain ⟨-, -, -, -, hd⟩ := ne_of_isInert h
  simp [isNameChar, isIdentifierRest_of_isInert h, hd]

theorem Tamer.refl (text : List Char) : Tamer text text :=
  ⟨rfl, .inl rfl⟩

theorem Tamer.cons {new old : List Char} (c : Char) (h : Tamer new old) :
    Tamer (c :: new) (c :: old) := by
  by_cases hc : isIdentifierRest c
  · exact ⟨by simp [hc, h.run], by simpa [afterRun, hc] using h.after⟩
  · exact ⟨by simp [hc], .inl (by simp [afterRun, hc])⟩

theorem Tamer.append_left {new old : List Char} (h : Tamer new old) (front : List Char) :
    Tamer (front ++ new) (front ++ old) := by
  induction front with
  | nil => exact h
  | cons c cs ih => exact ih.cons c

/-- An inert beginning is tamer than any text that begins with no identifier character. -/
theorem Tamer.of_inert {new old : List Char} (hn : ∀ c ∈ new.head?, isInert c)
    (ho : ∀ c ∈ old.head?, isIdentifierRest c = false) : Tamer new old := by
  have hr : ∀ c ∈ new.head?, isIdentifierRest c = false := fun c hc =>
    isIdentifierRest_of_isInert (hn c hc)
  cases new with
  | nil =>
    refine ⟨?_, .inr (by simp [afterRun])⟩
    cases old <;> simp_all
  | cons c cs =>
    refine ⟨?_, .inr (by simp_all [afterRun])⟩
    cases old <;> simp_all

/-- Adding or removing a part that begins inertly makes a text tamer. -/
theorem Tamer.append_inert {more : List Char} (h : ∀ c ∈ more.head?, isInert c)
    (text : List Char) : Tamer (text ++ more) text := by
  have hn : Tamer more [] := .of_inert h (by simp)
  simpa using hn.append_left text

theorem Tamer.of_append_inert {more : List Char} (h : ∀ c ∈ more.head?, isInert c)
    (text : List Char) : Tamer text (text ++ more) := by
  have hn : Tamer [] more := .of_inert (by simp) fun c hc => isIdentifierRest_of_isInert (h c hc)
  simpa using hn.append_left text

theorem head?_eq_run_or (text : List Char) :
    text.head? = (text.takeWhile isIdentifierRest).head?.or (afterRun text) := by
  cases text with
  | nil => rfl
  | cons c cs => by_cases hc : isIdentifierRest c <;> simp [afterRun, hc]

theorem takeWhile_eq_nil {text : List Char} (h : ∀ c ∈ text.head?, isIdentifierRest c = false) :
    text.takeWhile isIdentifierRest = [] := by
  cases text with
  | nil => rfl
  | cons c cs => simp [h c rfl]

/-- Of a text that begins with no identifier character one sees the first character. -/
theorem afterRun_eq_head? {text : List Char} (h : ∀ c ∈ text.head?, isIdentifierRest c = false) :
    afterRun text = text.head? := by
  rw [head?_eq_run_or text, takeWhile_eq_nil h]
  rfl

/-- What is seen of a text that begins with no identifier character is its first character. -/
theorem Tamer.of_head? {new old : List Char} (hh : new.head? = old.head?)
    (ho : ∀ c ∈ old.head?, isIdentifierRest c = false) : Tamer new old := by
  refine ⟨?_, .inl ?_⟩
  · rw [takeWhile_eq_nil ho, takeWhile_eq_nil (hh ▸ ho)]
  · rw [afterRun_eq_head? ho, afterRun_eq_head? (hh ▸ ho), hh]

theorem Tamer.head? {new old : List Char} (h : Tamer new old) :
    new.head? = old.head? ∨ ∀ c ∈ new.head?, isInert c := by
  rw [head?_eq_run_or new, head?_eq_run_or old, h.run]
  cases (old.takeWhile isIdentifierRest).head? with
  | some c => exact .inl rfl
  | none => simpa using h.after

/-- A character that is not inert shows in the tamer text only when it shows in the other. -/
theorem Tamer.head?_ne {new old : List Char} (h : Tamer new old) {c : Char}
    (hc : isInert c = false) (ho : old.head? ≠ some c) : new.head? ≠ some c := by
  intro hn
  rcases h.head? with he | hi
  · exact ho (he ▸ hn)
  · simp [hi c hn] at hc

namespace Region

theorem tag?_eq_none_iff {text : List Char} :
    tag? text = none ↔ afterRun text = some '$' →
      text.takeWhile isIdentifierRest ≠ [] ∧
        isIdentifier (text.takeWhile isIdentifierRest) = false := by
  simp only [tag?, afterRun]
  split
  · rename_i rest hr
    simp [hr]
  · rename_i hr
    simp only [true_iff]
    intro h
    obtain ⟨ds, hd⟩ := List.head?_eq_some_iff.mp h
    exact absurd hd (hr ds)

theorem tag?_eq_none_of_tamer {new old : List Char} (h : Tamer new old) (ho : tag? old = none) :
    tag? new = none := by
  rw [tag?_eq_none_iff] at ho ⊢
  rw [h.run]
  intro hn
  rcases h.after with he | hi
  · exact ho (he ▸ hn)
  · exact absurd rfl (ne_of_isInert (hi '$' hn)).2.2.2.2

/-- When a character is code: it starts no quote, no comment and no dollar-quoted block. -/
theorem Kind.opens?_cons_eq_none_iff {before : Option Char} {c : Char} {text : List Char} :
    opens? before (c :: text) = none ↔
      c ≠ '\'' ∧ c ≠ '"' ∧ (c = '-' → text.head? ≠ some '-') ∧ (c = '/' → text.head? ≠ some '*') ∧
        (c = '$' → before.any isNameChar = false → tag? text = none) := by
  unfold opens?
  split
  case h_5 rest he =>
    cases he
    cases before.any isNameChar <;> simp
  case h_6 hl hb hs hd hv =>
    simp only [true_iff]
    refine ⟨fun h => hs text (h ▸ rfl), fun h => hd text (h ▸ rfl), fun h hh => ?_, fun h hh => ?_,
      fun h => absurd (h ▸ rfl) (hv text)⟩
    · obtain ⟨rest, rfl⟩ := List.head?_eq_some_iff.mp hh
      exact hl rest (h ▸ rfl)
    · obtain ⟨rest, rfl⟩ := List.head?_eq_some_iff.mp hh
      exact hb rest (h ▸ rfl)
  all_goals
    rename_i he
    cases he
    simp

theorem Kind.opens?_eq_none_of_tamer {before : Option Char} {c : Char} {new old : List Char}
    (h : Tamer new old) (ho : opens? before (c :: old) = none) :
    opens? before (c :: new) = none := by
  rw [opens?_cons_eq_none_iff] at ho ⊢
  obtain ⟨hs, hd, hl, hb, ht⟩ := ho
  exact ⟨hs, hd, fun hc => h.head?_ne (by decide) (hl hc), fun hc => h.head?_ne (by decide) (hb hc),
    fun hc hn => tag?_eq_none_of_tamer h (ht hc hn)⟩

theorem Kind.opens?_inert {c : Char} (h : isInert c) (before : Option Char) (text : List Char) :
    opens? before (c :: text) = none := by
  obtain ⟨hl, hb, hs, hd, hv⟩ := ne_of_isInert h
  rw [opens?_cons_eq_none_iff]
  exact ⟨hs, hd, fun hc => absurd hc hl, fun hc => absurd hc hb, fun hc => absurd hc hv⟩

/-- What stands behind matters to a dollar sign only. -/
theorem Kind.opens?_congr_before {b b' : Option Char} {text : List Char}
    (h : text.head? = some '$' → b.any isNameChar = b'.any isNameChar) :
    opens? b text = opens? b' text := by
  unfold opens?
  split
  case h_5 => rw [h rfl]
  all_goals rfl

/-- Tamer text does not prolong a region that the other text released, line comments apart. -/
theorem Kind.Released.of_tamer {kind : Kind} {new old : List Char} (hk : kind ≠ .lineComment)
    (h : Tamer new old) (ho : kind.Released old) : kind.Released new := by
  cases kind with
  | singleQuoted => exact h.head?_ne (by decide) ho
  | doubleQuoted => exact h.head?_ne (by decide) ho
  | lineComment => exact absurd rfl hk
  | blockComment => trivial
  | dollarQuoted tag => trivial

theorem Released.of_tamer {r : Region} {new old : List Char} (ht : r.terminated)
    (hk : r.kind ≠ .lineComment) (h : Tamer new old) (ho : r.Released old) : r.Released new := by
  rw [Released, if_pos ht] at ho ⊢
  exact Kind.Released.of_tamer hk h ho

theorem Released.of_head? {r : Region} {new old : List Char} (h : Tamer new old)
    (hh : new.head? = old.head?) (ho : r.Released old) : r.Released new := by
  cases ht : r.terminated with
  | false =>
    rw [Released, ht, if_neg Bool.false_ne_true] at ho ⊢
    rw [ho] at hh
    simpa using hh
  | true =>
    by_cases hk : r.kind = .lineComment
    · rw [Released, if_pos ht, hk] at ho ⊢
      intro c hc
      exact ho c (hh ▸ hc)
    · exact ho.of_tamer ht hk h

end Region

end NamedSql
