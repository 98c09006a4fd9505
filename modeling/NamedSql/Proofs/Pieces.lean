import NamedSql.Excerpt
import NamedSql.Proofs.Segmentation

namespace NamedSql

/-- Induction from one separator to the next. -/
theorem separator_induction {α : Type} (separator : α) {motive : List α → Prop}
    (last : ∀ xs, separator ∉ xs → motive xs)
    (cut : ∀ as bs, separator ∉ as → motive bs → motive (as ++ separator :: bs))
    (xs : List α) : motive xs := by
  by_cases h : separator ∈ xs
  · obtain ⟨as, bs, he, ha⟩ := List.eq_append_cons_of_mem h
    have : bs.length < xs.length := by simp [he]; omega
    rw [he]
    exact cut as bs ha (separator_induction separator last cut bs)
  · exact last xs h
termination_by xs.length

/-- A semicolon of the code stands at byte `k`. -/
def TopSemicolon (text : List Char) (k : Nat) : Prop :=
  ∃ p cs, (p, Segment.code cs) ∈ Segment.locate .origin (Segment.ofText text) ∧
    ∃ front back, cs = front ++ ';' :: back ∧ k = p.byte + byteLength front

/-- The bytes between the pieces, when the first piece begins at `start`. -/
def joints (start : Nat) : List (List Char) → List Nat
  | [] => []
  | [_] => []
  | piece :: next :: rest =>
    (start + byteLength piece) :: joints (start + byteLength piece + 1) (next :: rest)

def Lexeme.pieces : List Lexeme → List (List Char)
  | [] => [[]]
  | .code c :: ls => extendCode c (pieces ls)
  | .region r :: ls => extendPiece r.text (pieces ls)

namespace Lexeme

theorem pieces_map_code_append (cs : List Char) (ls : List Lexeme) :
    pieces (cs.map .code ++ ls) = cs.foldr extendCode (pieces ls) := by
  induction cs with
  | nil => rfl
  | cons c cs ih => rw [List.map_cons, List.cons_append, pieces, ih, List.foldr_cons]

theorem pieces_flatMap_lexemes (segments : List Segment) :
    pieces (segments.flatMap Segment.lexemes) = NamedSql.pieces segments := by
  induction segments with
  | nil => rfl
  | cons s rest ih =>
    rw [List.flatMap_cons]
    cases s with
    | code cs => rw [Segment.lexemes, pieces_map_code_append, ih, NamedSql.pieces]
    | region r => rw [Segment.lexemes, List.singleton_append, pieces, ih, NamedSql.pieces]

theorem pieces_scan (text : List Char) :
    pieces (scan none text) = NamedSql.pieces (Segment.ofText text) :=
  pieces_flatMap_lexemes (Segment.ofText text)

theorem pieces_ne_nil (ls : List Lexeme) : pieces ls ≠ [] := by
  cases ls with
  | nil => simp [pieces]
  | cons l ls =>
    cases l with
    | code c => exact extendCode_ne_nil c _
    | region r => exact extendPiece_ne_nil _ _

/-- A semicolon of the code ends a piece. -/
theorem pieces_append_semicolon (as bs : List Lexeme) :
    pieces (as ++ .code ';' :: bs) = pieces as ++ pieces bs := by
  induction as with
  | nil => rfl
  | cons l as ih =>
    obtain ⟨piece, rest, hp⟩ := List.exists_cons_of_ne_nil (pieces_ne_nil as)
    rw [hp] at ih
    cases l with
    | code c =>
      rw [List.cons_append, pieces, ih, pieces, hp]
      by_cases hc : c = ';' <;> simp [extendCode, extendPiece, hc]
    | region r => rw [List.cons_append, pieces, ih, pieces, hp]; rfl

/-- A last lexeme other than a semicolon goes into the last piece. -/
theorem pieces_concat (ls : List Lexeme) : ∃ front piece, pieces ls = front ++ [piece] ∧
    ∀ l, l ≠ .code ';' → pieces (ls ++ [l]) = front ++ [piece ++ l.text] := by
  induction ls with
  | nil =>
    refine ⟨[], [], rfl, fun l hl => ?_⟩
    cases l with
    | code c =>
      have hc : c ≠ ';' := fun he => hl (he ▸ rfl)
      simp [pieces, extendCode, hc, extendPiece, text]
    | region r => simp [pieces, extendPiece, text]
  | cons m ls ih =>
    obtain ⟨front, piece, hp, hq⟩ := ih
    have hext : ∀ cs, ∃ front' piece', extendPiece cs (pieces ls) = front' ++ [piece'] ∧
        ∀ l, l ≠ .code ';' →
          extendPiece cs (pieces (ls ++ [l])) = front' ++ [piece' ++ l.text] := by
      intro cs
      rw [hp]
      cases front with
      | nil => exact ⟨[], cs ++ piece, rfl, fun l hl => by simp [hq l hl, extendPiece]⟩
      | cons first front =>
        exact ⟨(cs ++ first) :: front, piece, rfl, fun l hl => by simp [hq l hl, extendPiece]⟩
    cases m with
    | region r => exact hext r.text
    | code d =>
      by_cases hd : d = ';'
      · refine ⟨[] :: front, piece, ?_, fun l hl => ?_⟩
        · simp [pieces, extendCode, hd, hp]
        · simp [pieces, extendCode, hd, hq l hl]
      · simpa [pieces, extendCode, hd] using hext [d]

/-- The lexemes of each piece. -/
def parts (ls : List Lexeme) : List (List Lexeme) :=
  ls.splitOn (.code ';')

theorem parts_of_not_mem {ls : List Lexeme} (h : .code ';' ∉ ls) : parts ls = [ls] :=
  List.splitOn_eq_singleton h

theorem parts_append_semicolon {as : List Lexeme} (h : .code ';' ∉ as) (bs : List Lexeme) :
    parts (as ++ .code ';' :: bs) = as :: parts bs :=
  List.splitOn_append_cons_self_of_not_mem h bs

theorem pieces_of_not_mem {ls : List Lexeme} (h : .code ';' ∉ ls) : pieces ls = [join ls] := by
  induction ls with
  | nil => rfl
  | cons l ls ih =>
    obtain ⟨hl, hls⟩ := not_or.mp (mt List.mem_cons.mpr h)
    cases l with
    | code c =>
      have hc : c ≠ ';' := fun he => hl (he ▸ rfl)
      rw [pieces, ih hls, extendCode, if_neg hc]
      rfl
    | region r =>
      rw [pieces, ih hls]
      rfl

theorem map_join_parts (ls : List Lexeme) : (parts ls).map join = pieces ls := by
  induction ls using separator_induction (Lexeme.code ';') with
  | last ls h => rw [parts_of_not_mem h, pieces_of_not_mem h, List.map_singleton]
  | cut as bs h ih =>
    rw [parts_append_semicolon h, pieces_append_semicolon, pieces_of_not_mem h, List.map_cons, ih]
    rfl

/-- Each piece is scanned by itself as it is in the whole. -/
theorem Scanned.of_mem_parts {ls part : List Lexeme} (h : Scanned none ls) (hp : part ∈ parts ls) :
    Scanned none part := by
  induction ls using separator_induction (Lexeme.code ';') with
  | last ls hn =>
    rw [parts_of_not_mem hn] at hp
    rwa [List.mem_singleton.mp hp]
  | cut as bs hn ih =>
    obtain ⟨ha, -, -, hb⟩ := (scanned_append_inert_iff isInert_semicolon).mp h
    rw [parts_append_semicolon hn] at hp
    rcases List.mem_cons.mp hp with rfl | hp
    · exact ha
    · exact ih ((scanned_after_inert_iff isInert_semicolon).mp hb) hp

end Lexeme

theorem joints_extendPiece (start : Nat) (cs : List Char) {ps : List (List Char)} (h : ps ≠ []) :
    joints start (extendPiece cs ps) = joints (start + byteLength cs) ps := by
  match ps with
  | [piece] => rfl
  | piece :: next :: rest => simp [extendPiece, joints, Nat.add_assoc]

theorem joints_nil_cons (start : Nat) {ps : List (List Char)} (h : ps ≠ []) :
    joints start ([] :: ps) = start :: joints (start + 1) ps := by
  match ps with
  | piece :: rest => rfl

theorem le_of_mem_joints {start k : Nat} {ps : List (List Char)} (h : k ∈ joints start ps) :
    start ≤ k := by
  fun_induction joints start ps with
  | case1 => simp at h
  | case2 => simp at h
  | case3 start piece next rest ih =>
    rcases List.mem_cons.mp h with rfl | h
    · omega
    · have := ih h
      omega

theorem joints_pieces_cons (start : Nat) (l : Lexeme) (ls : List Lexeme) :
    joints start (Lexeme.pieces (l :: ls)) = (if l = .code ';' then [start] else []) ++
      joints (start + byteLength l.text) (Lexeme.pieces ls) := by
  have hne := Lexeme.pieces_ne_nil ls
  cases l with
  | region r => simpa [Lexeme.pieces, Lexeme.text] using joints_extendPiece start r.text hne
  | code c =>
    by_cases hc : c = ';'
    · subst hc
      exact joints_nil_cons start hne
    · simpa [Lexeme.pieces, Lexeme.text, extendCode, hc] using joints_extendPiece start [c] hne

/-- The pieces meet exactly at the semicolons of the code. -/
theorem mem_joints_pieces_iff {start k : Nat} {ls : List Lexeme} :
    k ∈ joints start (Lexeme.pieces ls) ↔
      ∃ as bs, ls = as ++ .code ';' :: bs ∧ k = start + byteLength (Lexeme.join as) := by
  induction ls generalizing start with
  | nil => simp [Lexeme.pieces, joints]
  | cons l ls ih =>
    rw [joints_pieces_cons, List.mem_append, ih]
    constructor
    · intro hk
      rcases hk with h | ⟨as, bs, rfl, rfl⟩
      · split at h
        · rename_i hl
          exact ⟨[], ls, by rw [hl, List.nil_append], by simpa using h⟩
        · simp at h
      · exact ⟨l :: as, bs, rfl, by rw [Lexeme.join_cons, byteLength_append, Nat.add_assoc]⟩
    · intro h
      obtain ⟨as, bs, he, rfl⟩ := h
      cases as with
      | nil =>
        cases he
        simp
      | cons m as =>
        cases he
        exact .inr ⟨as, bs, rfl, by rw [Lexeme.join_cons, byteLength_append, Nat.add_assoc]⟩

/-- A character of code among the lexemes lies in one of the segments. -/
theorem Segment.exists_of_flatMap_lexemes {segments : List Segment} {as bs : List Lexeme} {c : Char}
    (h : segments.flatMap lexemes = as ++ .code c :: bs) :
    ∃ front us vs back, segments = front ++ .code (us ++ c :: vs) :: back ∧
      as = front.flatMap lexemes ++ us.map .code := by
  induction segments generalizing as with
  | nil => simp at h
  | cons s rest ih =>
    rw [List.flatMap_cons] at h
    rcases List.append_eq_append_iff.mp h with ⟨as', rfl, hr⟩ | ⟨cs', hs, hr⟩
    · obtain ⟨front, us, vs, back, rfl, rfl⟩ := ih hr
      exact ⟨s :: front, us, vs, back, rfl, by simp⟩
    · cases cs' with
      | nil =>
        obtain ⟨front, us, vs, back, rfl, he⟩ := @ih [] (by simpa using hr.symm)
        exact ⟨s :: front, us, vs, back, rfl, by simp_all⟩
      | cons d cs' =>
        cases hr
        cases s with
        | region r => cases as <;> simp [lexemes] at hs
        | code cs =>
          obtain ⟨us, ws, rfl, rfl, hw⟩ := List.map_eq_append_iff.mp hs
          obtain ⟨d, vs, rfl, hd, -⟩ := List.map_eq_cons_iff.mp hw
          cases hd
          exact ⟨[], us, vs, rest, rfl, by simp⟩

theorem topSemicolon_iff {text : List Char} {k : Nat} :
    TopSemicolon text k ↔ ∃ as bs, Lexeme.scan none text = as ++ .code ';' :: bs ∧
      k = byteLength (Lexeme.join as) := by
  constructor
  · intro h
    obtain ⟨p, cs, hm, us, vs, rfl, rfl⟩ := h
    obtain ⟨front, back, hs, rfl⟩ := Segment.mem_locate_iff.mp hm
    refine ⟨front.flatMap Segment.lexemes ++ us.map .code,
      vs.map .code ++ back.flatMap Segment.lexemes, ?_, ?_⟩
    · rw [Lexeme.scan, show Segment.lex none text = _ from hs]
      simp [Segment.lexemes]
    · simp [Position.origin]
  · intro h
    obtain ⟨as, bs, hs, rfl⟩ := h
    obtain ⟨front, us, vs, back, he, rfl⟩ := Segment.exists_of_flatMap_lexemes hs
    refine ⟨_, _, Segment.mem_locate_iff.mpr ⟨front, back, he, rfl⟩, us, vs, rfl, ?_⟩
    simp [Position.origin]

theorem topSemicolon_iff_mem_joints {text : List Char} {k : Nat} :
    TopSemicolon text k ↔ k ∈ joints 0 (pieces (Segment.ofText text)) := by
  rw [topSemicolon_iff, ← Lexeme.pieces_scan, mem_joints_pieces_iff]
  simp

theorem map_chars_locate (start : Position) (ps : List (List Char)) :
    (Excerpt.locate start ps).map Excerpt.chars = ps := by
  induction ps generalizing start with
  | nil => rfl
  | cons piece rest ih => rw [Excerpt.locate, List.map_cons, ih]

/-- The pieces that are left when each is trimmed and the blank ones are dropped. -/
def statementsOf (ps : List (List Char)) : List (List Char) :=
  (ps.map trim).filter fun piece => !piece.isEmpty

theorem map_chars_ofScript (start : Position) (text : List Char) :
    (Excerpt.ofScript start text).map Excerpt.chars =
      statementsOf (pieces (Segment.ofText text)) := by
  have htrim (es : List Excerpt) :
      es.map (trim ∘ Excerpt.chars) = (es.map Excerpt.trim).map Excerpt.chars := by
    rw [List.map_map]
    rfl
  rw [statementsOf, ← map_chars_locate start (pieces _), List.map_map, htrim, List.filter_map]
  rfl

end NamedSql
