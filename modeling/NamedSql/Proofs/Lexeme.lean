import NamedSql.Segment
import NamedSql.Proofs.Lookahead

namespace NamedSql

/-- A character of code, or a whole region. -/
inductive Lexeme
  | code (c : Char)
  | region (r : Region)
deriving DecidableEq

def Segment.lexemes : Segment → List Lexeme
  | .code cs => cs.map .code
  | .region r => [.region r]

namespace Lexeme

def text : Lexeme → List Char
  | .code c => [c]
  | .region r => r.text

def join (ls : List Lexeme) : List Char :=
  ls.flatMap text

/-- Gathers the code between two regions into one segment. -/
def group : List Lexeme → List Segment
  | [] => []
  | .code c :: ls => Segment.addCode c (group ls)
  | .region r :: ls => .region r :: group ls

def scan (before : Option Char) (text : List Char) : List Lexeme :=
  (Segment.lex before text).flatMap Segment.lexemes

/-- Each lexeme is in order between its neighbours, `before` standing in front of the first. -/
inductive Scanned : Option Char → List Lexeme → Prop
  | nil {before : Option Char} : Scanned before []
  | code {before : Option Char} {c : Char} {ls : List Lexeme}
      (free : Region.Kind.opens? before (c :: join ls) = none) (rest : Scanned (some c) ls) :
      Scanned before (.code c :: ls)
  | region {before : Option Char} {r : Region} {ls : List Lexeme} (shape : r.WellFormed)
      (fits : r.kind.Fits before) (released : r.Released (join ls))
      (rest : Scanned r.text.getLast? ls) : Scanned before (.region r :: ls)

@[simp] theorem join_nil : join [] = [] := rfl

@[simp] theorem join_cons (l : Lexeme) (ls : List Lexeme) :
    join (l :: ls) = l.text ++ join ls := rfl

@[simp] theorem join_append (as bs : List Lexeme) : join (as ++ bs) = join as ++ join bs := by
  simp [join]

@[simp] theorem join_map_code (cs : List Char) : join (cs.map code) = cs := by
  induction cs with
  | nil => rfl
  | cons c cs ih => simp [text, ih]

@[simp] theorem join_lexemes (s : Segment) : join s.lexemes = s.text := by
  cases s <;> simp [Segment.lexemes, Segment.text, text]

@[simp] theorem join_flatMap_lexemes (segments : List Segment) :
    join (segments.flatMap Segment.lexemes) = Segment.join segments := by
  induction segments with
  | nil => rfl
  | cons s segments ih => simp [ih]

@[simp] theorem join_scan (before : Option Char) (text : List Char) :
    join (scan before text) = text := by
  simp [scan]

theorem flatMap_lexemes_addCode (c : Char) (segments : List Segment) :
    (Segment.addCode c segments).flatMap Segment.lexemes =
      .code c :: segments.flatMap Segment.lexemes := by
  unfold Segment.addCode
  split <;> simp [Segment.lexemes]

theorem scan_nil (before : Option Char) : scan before [] = [] := by
  simp [scan]

theorem scan_of_region {before : Option Char} {text rest : List Char} {r : Region}
    (h : Region.scan? before text = some (r, rest)) :
    scan before text = .region r :: scan r.text.getLast? rest := by
  rw [scan, Segment.lex_of_scan? h]
  rfl

theorem scan_of_code {before : Option Char} {c : Char} {cs : List Char}
    (h : Region.Kind.opens? before (c :: cs) = none) :
    scan before (c :: cs) = .code c :: scan (some c) cs := by
  rw [scan, Segment.lex_of_code (by rw [Region.scan?, h]; rfl), flatMap_lexemes_addCode]
  rfl

/-- Grouping the lexemes of a text gives its segments. -/
theorem group_scan (before : Option Char) (text : List Char) :
    group (scan before text) = Segment.lex before text := by
  fun_induction Segment.lex before text with
  | case1 => rw [scan_nil, group]
  | case2 before c cs r rest h _ ih => rw [scan_of_region h, group, ih]
  | case3 before c cs h ih => rw [scan_of_code (Option.map_eq_none_iff.mp h), group, ih]

theorem scanned_scan (before : Option Char) (text : List Char) :
    Scanned before (scan before text) := by
  fun_induction Segment.lex before text with
  | case1 =>
    rw [scan_nil]
    exact .nil
  | case2 before c cs r rest h _ ih =>
    obtain ⟨-, hw, hf, hr⟩ := Region.scan?_eq_some_iff.mp h
    rw [scan_of_region h]
    exact .region hw hf (by rwa [join_scan]) ih
  | case3 before c cs h ih =>
    have ho := Option.map_eq_none_iff.mp h
    rw [scan_of_code ho]
    exact .code (by rwa [join_scan]) ih

theorem Scanned.scan_join {before : Option Char} {ls : List Lexeme} (h : Scanned before ls) :
    scan before (join ls) = ls := by
  induction h with
  | nil => exact scan_nil _
  | code free _ ih => rw [join_cons, text, List.singleton_append, scan_of_code free, ih]
  | region shape fits released _ ih =>
    rw [join_cons, text, scan_of_region (Region.scan?_eq_some_iff.mpr ⟨rfl, shape, fits, released⟩),
      ih]

theorem Scanned.text_ne_nil {before : Option Char} {ls : List Lexeme} (h : Scanned before ls) :
    ∀ l ∈ ls, l.text ≠ [] := by
  induction h with
  | nil => simp
  | code free _ ih => simpa [text] using ih
  | region shape _ _ _ ih => simpa [text, shape.text_ne_nil] using ih

theorem Scanned.eq_nil_of_join {before : Option Char} {ls : List Lexeme} (h : Scanned before ls)
    (hj : join ls = []) : ls = [] := by
  cases ls with
  | nil => rfl
  | cons l ls => exact absurd (List.append_eq_nil_iff.mp hj).1 (h.text_ne_nil l (by simp))

@[simp] theorem scanned_nil {before : Option Char} : Scanned before [] := .nil

@[simp] theorem scanned_code_iff {before : Option Char} {c : Char} {ls : List Lexeme} :
    Scanned before (.code c :: ls) ↔
      Region.Kind.opens? before (c :: join ls) = none ∧ Scanned (some c) ls :=
  ⟨fun | .code free rest => ⟨free, rest⟩, fun ⟨free, rest⟩ => .code free rest⟩

@[simp] theorem scanned_region_iff {before : Option Char} {r : Region} {ls : List Lexeme} :
    Scanned before (.region r :: ls) ↔ r.WellFormed ∧ r.kind.Fits before ∧ r.Released (join ls) ∧
      Scanned r.text.getLast? ls :=
  ⟨fun | .region shape fits released rest => ⟨shape, fits, released, rest⟩,
    fun ⟨shape, fits, released, rest⟩ => .region shape fits released rest⟩

/-- What stands in front matters only when the text begins with a dollar sign. -/
theorem Scanned.congr_before {b b' : Option Char} {ls : List Lexeme} (h : Scanned b ls)
    (hb : (join ls).head? = some '$' → b.any isNameChar = b'.any isNameChar) : Scanned b' ls := by
  cases h with
  | nil => exact .nil
  | code free rest => exact .code ((Region.Kind.opens?_congr_before hb) ▸ free) rest
  | region shape fits released rest =>
    refine .region shape (shape.fits_congr (fun hs => hb ?_) fits) released rest
    rw [join_cons, text, List.head?_append, hs, Option.some_or]

/-- The scan goes on behind a first part as if it began there. -/
theorem Scanned.drop {before : Option Char} {as bs : List Lexeme} (h : Scanned before (as ++ bs)) :
    Scanned ((join as).getLast?.or before) bs := by
  induction as generalizing before with
  | nil => exact h
  | cons l as ih =>
    cases l with
    | code c =>
      have := ih (scanned_code_iff.mp h).2
      simpa [text, List.getLast?_cons] using this
    | region r =>
      obtain ⟨shape, -, -, rest⟩ := scanned_region_iff.mp h
      have := ih rest
      rw [join_cons, text, List.getLast?_append, Option.or_assoc]
      cases hl : r.text.getLast? with
      | none => exact absurd (List.getLast?_eq_none_iff.mp hl) shape.text_ne_nil
      | some d => simpa [hl] using this

/-- A scan stays in order when another end takes the place of its end. In front of the end one
sees no more of it than its first character, unless that belongs to a name. -/
theorem Scanned.replace_end {before : Option Char} {front as bs : List Lexeme}
    (h : Scanned before (front ++ as)) (hh : (join bs).head? = (join as).head?)
    (hr : ∀ c ∈ (join as).head?, isIdentifierRest c = false)
    (hb : ∀ b, Scanned b as → Scanned b bs) : Scanned before (front ++ bs) := by
  have ht : Tamer (join bs) (join as) := .of_head? hh hr
  induction front generalizing before with
  | nil => exact hb before h
  | cons l front ih =>
    rw [List.cons_append] at h ⊢
    cases l with
    | code c =>
      obtain ⟨free, rest⟩ := scanned_code_iff.mp h
      refine .code ?_ (ih rest)
      rw [join_append] at free ⊢
      exact Region.Kind.opens?_eq_none_of_tamer (ht.append_left _) free
    | region r =>
      obtain ⟨shape, fits, released, rest⟩ := scanned_region_iff.mp h
      refine .region shape fits ?_ (ih rest)
      rw [join_append] at released ⊢
      exact released.of_head? (ht.append_left _) (by rw [List.head?_append, hh, ← List.head?_append])

/-- No region of the list was left open. -/
def Closed (ls : List Lexeme) : Prop :=
  ∀ r, .region r ∈ ls → r.terminated

/-- The text of the list ends inside a line comment. -/
def EndsInLineComment (ls : List Lexeme) : Prop :=
  ∃ r, ls.getLast? = some (.region r) ∧ r.kind = .lineComment

@[simp] theorem closed_nil : Closed [] := by
  simp [Closed]

@[simp] theorem closed_code_iff {c : Char} {ls : List Lexeme} :
    Closed (.code c :: ls) ↔ Closed ls := by
  simp [Closed]

@[simp] theorem closed_region_iff {r : Region} {ls : List Lexeme} :
    Closed (.region r :: ls) ↔ r.terminated ∧ Closed ls := by
  simp [Closed]

@[simp] theorem not_endsInLineComment_nil : ¬ EndsInLineComment [] := by
  simp [EndsInLineComment]

@[simp] theorem endsInLineComment_code_iff {c : Char} {ls : List Lexeme} :
    EndsInLineComment (.code c :: ls) ↔ EndsInLineComment ls := by
  cases ls <;> simp [EndsInLineComment]

theorem endsInLineComment_region_iff {r : Region} {ls : List Lexeme} :
    EndsInLineComment (.region r :: ls) ↔
      (ls = [] ∧ r.kind = .lineComment) ∨ EndsInLineComment ls := by
  cases ls <;> simp [EndsInLineComment]

theorem released_append_inert_iff {r : Region} {c : Char} (hc : isInert c) (rest more : List Char) :
    r.Released (rest ++ c :: more) ↔
      r.terminated ∧ r.Released rest ∧ (rest = [] → r.kind = .lineComment → c = '\n') := by
  obtain ⟨kind, text, terminated⟩ := r
  cases terminated with
  | false => simp [Region.Released]
  | true =>
    obtain ⟨-, -, hs, hd, -⟩ := ne_of_isInert hc
    cases kind <;> cases rest <;> simp [Region.Released, Region.Kind.Released, hs, hd]

/-- A scan passes an inert character exactly when nothing in front of it is left open, a line
comment being closed by a newline only. -/
theorem scanned_append_inert_iff {before : Option Char} {as bs : List Lexeme} {c : Char}
    (hc : isInert c) :
    Scanned before (as ++ .code c :: bs) ↔ Scanned before as ∧ Closed as ∧
      (EndsInLineComment as → c = '\n') ∧ Scanned (some c) bs := by
  have hh : ∀ d ∈ (join (.code c :: bs)).head?, isInert d := by simpa [text] using hc
  induction as generalizing before with
  | nil => simp [Region.Kind.opens?_inert hc]
  | cons l as ih =>
    cases l with
    | code d =>
      have hd : Region.Kind.opens? before (d :: join (as ++ .code c :: bs)) = none ↔
          Region.Kind.opens? before (d :: join as) = none := by
        rw [join_append]
        exact ⟨Region.Kind.opens?_eq_none_of_tamer (.of_append_inert hh _),
          Region.Kind.opens?_eq_none_of_tamer (.append_inert hh _)⟩
      simp only [List.cons_append, scanned_code_iff, hd, ih, closed_code_iff,
        endsInLineComment_code_iff, and_assoc]
    | region r =>
      simp only [List.cons_append, scanned_region_iff, join_append, join_cons, text,
        released_append_inert_iff hc, ih, closed_region_iff,
        endsInLineComment_region_iff]
      constructor
      · intro h
        obtain ⟨shape, fits, ⟨ht, released, hl⟩, ha, hcl, hn, hb⟩ := h
        refine ⟨⟨shape, fits, released, ha⟩, ⟨ht, hcl⟩, ?_, hb⟩
        intro he
        rcases he with ⟨rfl, hk⟩ | he
        · exact hl rfl hk
        · exact hn he
      · intro h
        obtain ⟨⟨shape, fits, released, ha⟩, ⟨ht, hcl⟩, hn, hb⟩ := h
        refine ⟨shape, fits, ⟨ht, released, fun hj hk => ?_⟩, ha, hcl, fun he => hn (.inr he), hb⟩
        exact hn (.inl ⟨ha.eq_nil_of_join hj, hk⟩)

/-- An inert character in front of a text is like nothing in front of it. -/
theorem scanned_after_inert_iff {c : Char} (hc : isInert c) {ls : List Lexeme} :
    Scanned (some c) ls ↔ Scanned none ls := by
  have hn : (some c).any isNameChar = (none : Option Char).any isNameChar := by
    simpa using isNameChar_of_isInert hc
  exact ⟨fun h => h.congr_before fun _ => hn, fun h => h.congr_before fun _ => hn.symm⟩

theorem scan_cons_inert {c : Char} (hc : isInert c) (cs : List Char) :
    scan none (c :: cs) = .code c :: scan none cs := by
  have hs : Scanned none (.code c :: scan none cs) := scanned_code_iff.mpr
    ⟨Region.Kind.opens?_inert hc _ _, (scanned_after_inert_iff hc).mpr (scanned_scan none cs)⟩
  simpa [text] using hs.scan_join

end Lexeme

end NamedSql
