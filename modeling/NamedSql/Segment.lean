import NamedSql.Region

namespace NamedSql

/-- A stretch of a script, either code or one region. -/
inductive Segment
  | code (chars : List Char)
  | region (region : Region)
deriving DecidableEq

namespace Segment

/-- The characters of the segment. -/
def text : Segment → List Char
  | .code chars => chars
  | .region r => r.text

/-- The script that the segments were cut from. -/
def join (segments : List Segment) : List Char :=
  segments.flatMap text

/-- Puts a character of code in front, into the first segment if that is code. -/
def addCode (c : Char) : List Segment → List Segment
  | .code cs :: rest => .code (c :: cs) :: rest
  | rest => .code [c] :: rest

/-- Cuts a text into segments. `before` is the character in front of the text. -/
def lex (before : Option Char) (text : List Char) : List Segment :=
  match text with
  | [] => []
  | c :: cs =>
    match h : Region.scan? before (c :: cs) with
    | some (r, rest) =>
      have := Region.length_rest_lt_of_scan? h
      .region r :: lex r.text.getLast? rest
    | none => addCode c (lex (some c) cs)
termination_by text.length
decreasing_by
  · assumption
  · exact Nat.lt_succ_self _

/-- The segments of a whole script. -/
def ofText (text : List Char) : List Segment :=
  lex none text

/-- Each segment with the place where it begins, when the first one begins at `start`. -/
def locate (start : Position) : List Segment → List (Position × Segment)
  | [] => []
  | s :: rest => (start, s) :: locate (start.after s.text) rest

@[simp] theorem join_nil : join [] = [] := rfl

@[simp] theorem join_cons (s : Segment) (rest : List Segment) :
    join (s :: rest) = s.text ++ join rest := rfl

@[simp] theorem join_addCode (c : Char) (segments : List Segment) :
    join (addCode c segments) = c :: join segments := by
  unfold addCode
  split <;> simp [text]

@[simp] theorem lex_nil (before : Option Char) : lex before [] = [] := by
  rw [lex]

theorem lex_of_scan? {before : Option Char} {text rest : List Char} {r : Region}
    (h : Region.scan? before text = some (r, rest)) :
    lex before text = .region r :: lex r.text.getLast? rest := by
  cases text with
  | nil => simp [Region.scan?, Region.Kind.opens?] at h
  | cons c cs =>
    rw [lex]
    split
    · rename_i h'
      rw [h] at h'
      obtain ⟨rfl, rfl⟩ := Prod.mk.inj (Option.some.inj h')
      rfl
    · simp_all

theorem lex_of_code {before : Option Char} {c : Char} {cs : List Char}
    (h : Region.scan? before (c :: cs) = none) :
    lex before (c :: cs) = addCode c (lex (some c) cs) := by
  rw [lex]
  split
  · simp_all
  · rfl

/-- No character is lost, added or moved. -/
@[simp] theorem join_lex (before : Option Char) (text : List Char) :
    join (lex before text) = text := by
  fun_induction lex before text with
  | case1 => rfl
  | case2 before c cs r rest h _ ih => simp [ih, Segment.text, Region.append_of_scan? h]
  | case3 before c cs h ih => simp [ih]

@[simp] theorem join_ofText (text : List Char) : join (ofText text) = text :=
  join_lex none text

theorem exists_addCode (c : Char) (segments : List Segment) :
    ∃ cs rest, addCode c segments = .code (c :: cs) :: rest := by
  unfold addCode
  split
  · exact ⟨_, _, rfl⟩
  · exact ⟨_, _, rfl⟩

theorem text_ne_nil_of_mem_lex {before : Option Char} {text : List Char} {s : Segment}
    (h : s ∈ lex before text) : s.text ≠ [] := by
  fun_induction lex before text with
  | case1 => simp at h
  | case2 before c cs r rest hs _ ih =>
    rcases List.mem_cons.mp h with rfl | h
    · exact Region.text_ne_nil_of_scan? hs
    · exact ih h
  | case3 before c cs _ ih =>
    unfold addCode at h
    split at h
    · rename_i ds rest he
      rcases List.mem_cons.mp h with rfl | h
      · simp [text]
      · exact ih (he ▸ List.mem_cons_of_mem _ h)
    · rcases List.mem_cons.mp h with rfl | h
      · simp [text]
      · exact ih h

@[simp] theorem map_locate_snd (start : Position) (segments : List Segment) :
    (locate start segments).map (·.2) = segments := by
  induction segments generalizing start with
  | nil => rfl
  | cons s rest ih => simp [locate, ih]

end Segment

end NamedSql
