import NamedSql.Proofs.SplitJoin
import NamedSql.Proofs.SplitSpans

namespace NamedSql

namespace Position

/-- A place depends on the bytes and the newlines in front of it only. -/
theorem after_congr {as bs : List Char} (hb : byteLength as = byteLength bs)
    (hn : as.count '\n' = bs.count '\n') (p : Position) : p.after as = p.after bs := by
  rw [after, after, hb, hn]

end Position

theorem charAt_append_iff {as bs : List Char} {k : Nat} {c : Char} :
    CharAt (as ++ bs) k c ↔ CharAt as k c ∨ ∃ j, CharAt bs j c ∧ k = byteLength as + j := by
  constructor
  · intro h
    obtain ⟨before, after, ht, rfl⟩ := h
    rcases List.append_eq_append_iff.mp ht with ⟨es, rfl, hb⟩ | ⟨es, ha, hb⟩
    · exact .inr ⟨_, ⟨es, after, hb, rfl⟩, byteLength_append ..⟩
    · cases es with
      | nil => exact .inr ⟨0, ⟨[], after, hb.symm, rfl⟩, by simp [ha]⟩
      | cons d es =>
        cases hb
        exact .inl ⟨before, es, ha, rfl⟩
  · intro h
    rcases h with ⟨before, after, rfl, rfl⟩ | ⟨j, ⟨before, after, rfl, rfl⟩, rfl⟩
    · exact ⟨before, after ++ bs, by simp, rfl⟩
    · exact ⟨as ++ before, after, by simp, (byteLength_append ..).symm⟩

namespace CharAt
variable {text : List Char} {k : Nat} {c d : Char}

theorem lt (h : CharAt text k c) : k < byteLength text := by
  obtain ⟨before, after, rfl, rfl⟩ := h
  have := c.utf8Size_pos
  simp only [byteLength_append, byteLength_cons]
  omega

theorem mem (h : CharAt text k c) : c ∈ text := by
  obtain ⟨before, after, rfl, -⟩ := h
  simp

theorem unique (hc : CharAt text k c) (hd : CharAt text k d) : c = d := by
  obtain ⟨front, back, rfl, rfl⟩ := hc
  obtain ⟨before, after, ht, hk⟩ := hd
  obtain ⟨es, rfl, hb⟩ := append_of_byteLength_le ht (Nat.le_of_eq hk)
  have hes : es = [] := byteLength_eq_zero_iff.mp (by simpa using hk)
  rw [hes] at hb
  exact (List.cons.inj hb).1

theorem mem_of_inSpan {as bs cs : List Char} (h : CharAt (as ++ (bs ++ cs)) k c)
    (hk : InSpan k (byteLength as, byteLength (as ++ bs))) : c ∈ bs := by
  simp only [InSpan, byteLength_append] at hk
  rcases charAt_append_iff.mp h with has | ⟨j, hj, rfl⟩
  · exact absurd has.lt (by omega)
  · rcases charAt_append_iff.mp hj with hbs | ⟨i, -, rfl⟩
    · exact hbs.mem
    · omega

end CharAt

theorem TopSemicolon.charAt {text : List Char} {k : Nat} (h : TopSemicolon text k) :
    CharAt text k ';' := by
  obtain ⟨as, bs, hs, rfl⟩ := topSemicolon_iff.mp h
  refine ⟨Lexeme.join as, Lexeme.join bs, ?_, rfl⟩
  rw [← Lexeme.join_scan none text, hs, Lexeme.join_append]
  rfl

namespace Excerpt

/-- A statement stands in the text where its place says, and neither of its ends is blank. -/
theorem eq_append_of_mem_ofScript {start : Position} {text : List Char} {e : Excerpt}
    (h : e ∈ ofScript start text) :
    ∃ before after, text = before ++ (e.chars ++ after) ∧ e.start = start.after before ∧
      e.chars ≠ [] ∧ ∀ c ∈ e.chars.head?, isBlank c = false := by
  obtain ⟨hm, hne⟩ := List.mem_filter.mp h
  obtain ⟨piece, hp, rfl⟩ := List.mem_map.mp hm
  obtain ⟨before, after, hj, hs⟩ := eq_append_of_mem_locate hp
  obtain ⟨front, back, hc, -, -, hstart⟩ := trim_excerpt piece
  refine ⟨before ++ front, back ++ after, ?_, ?_, by simpa using hne, ?_⟩
  · rw [joinPieces_pieces, Segment.join_ofText] at hj
    rw [hj, hc]
    simp
  · rw [hstart, hs, Position.after_append]
  · exact fun c hc => isBlank_head?_trim hc

theorem trim_chars_of_mem_ofScript {start : Position} {text : List Char} {e : Excerpt}
    (h : e ∈ ofScript start text) : NamedSql.trim e.chars = e.chars := by
  obtain ⟨piece, -, rfl⟩ := List.mem_map.mp (List.mem_filter.mp h).1
  exact trim_trim piece.chars

theorem start_lt_stop_of_mem_ofScript {start : Position} {text : List Char} {e : Excerpt}
    (h : e ∈ ofScript start text) : e.start.byte < e.stop.byte := by
  obtain ⟨-, -, -, -, hne, -⟩ := eq_append_of_mem_ofScript h
  have := byteLength_pos hne
  simp only [stop, Position.byte_after]
  omega

/-- The statements of a script lie within it. -/
theorem within_of_mem_ofScript {start : Position} {text : List Char} {e : Excerpt}
    (h : e ∈ ofScript start text) :
    start.byte ≤ e.start.byte ∧ e.stop.byte ≤ start.byte + byteLength text := by
  obtain ⟨before, after, ht, hs, -⟩ := eq_append_of_mem_ofScript h
  have hl := congrArg byteLength ht
  simp only [byteLength_append] at hl
  simp only [stop, hs, Position.byte_after]
  omega

/-- Between any two statements there is at least a semicolon. -/
theorem pairwise_ofScript (start : Position) (text : List Char) :
    (ofScript start text).Pairwise fun e f => e.stop.byte < f.start.byte := by
  refine List.Pairwise.filter _ (List.pairwise_map.mpr ((pairwise_locate start _).imp ?_))
  intro e f h
  obtain ⟨k, -, hl, hr⟩ := h
  have he := (trim_span_within e).2
  have hf := (trim_span_within f).1
  simp only [span] at he hf
  omega

theorem locate_append (start : Position) {ps : List (List Char)} (hp : ps ≠ [])
    (qs : List (List Char)) :
    locate start (ps ++ qs) =
      locate start ps ++ locate (start.after (joinPieces ps ++ [';'])) qs := by
  induction ps generalizing start with
  | nil => exact absurd rfl hp
  | cons piece ps ih =>
    cases ps with
    | nil => rfl
    | cons next rest =>
      have hj : piece ++ [';'] ++ (joinPieces (next :: rest) ++ [';']) =
          joinPieces (piece :: next :: rest) ++ [';'] := by
        simp [joinPieces]
      rw [List.cons_append, locate, ih _ (List.cons_ne_nil _ _), ← Position.after_append, hj]
      rfl

/-- The statements of a script that a semicolon of its code divides. -/
theorem ofScript_of_scan {text left right : List Char}
    (h : Lexeme.scan none text = Lexeme.scan none left ++ .code ';' :: Lexeme.scan none right)
    (start : Position) :
    ofScript start text = ofScript start left ++ ofScript (start.after (left ++ [';'])) right := by
  have hj : joinPieces (pieces (Segment.ofText left)) = left := by
    rw [joinPieces_pieces, Segment.join_ofText]
  rw [ofScript, ← Lexeme.pieces_scan, h, Lexeme.pieces_append_semicolon, Lexeme.pieces_scan,
    Lexeme.pieces_scan, locate_append start (pieces_ne_nil _), hj, List.map_append,
    List.filter_append]
  rfl

theorem trim_cons_blank {c : Char} (hc : isBlank c) (start : Position) (chars : List Char) :
    trim ⟨start, c :: chars⟩ = trim ⟨start.after [c], chars⟩ := by
  rw [trim, trim, trim_cons_of_blank hc, List.takeWhile_cons_of_pos hc, ← Position.after_append]
  rfl

/-- A blank in front of a script moves its statements and does nothing else. -/
theorem ofScript_cons_blank {c : Char} (hc : isBlank c) (start : Position) (text : List Char) :
    ofScript start (c :: text) = ofScript (start.after [c]) text := by
  have hs : c ≠ ';' := ne_of_isBlank hc rfl
  obtain ⟨piece, rest, hp⟩ := List.exists_cons_of_ne_nil (Lexeme.pieces_ne_nil (Lexeme.scan none text))
  have he : (start.after [c]).after (piece ++ [';']) = start.after (c :: piece ++ [';']) := by
    rw [← Position.after_append]
    rfl
  rw [ofScript, ofScript, ← Lexeme.pieces_scan, ← Lexeme.pieces_scan,
    Lexeme.scan_cons_inert (isInert_of_isBlank hc), Lexeme.pieces, hp, extendCode, if_neg hs,
    extendPiece, List.singleton_append, locate, locate, List.map_cons, List.map_cons,
    trim_cons_blank hc, he]

theorem ofScript_append_blanks {blanks : List Char} (h : ∀ c ∈ blanks, isBlank c)
    (start : Position) (text : List Char) :
    ofScript start (blanks ++ text) = ofScript (start.after blanks) text := by
  induction blanks generalizing start with
  | nil => rfl
  | cons c cs ih =>
    rw [List.cons_append, ofScript_cons_blank (h c (List.mem_cons_self ..)),
      ih fun d hd => h d (List.mem_cons_of_mem c hd), ← Position.after_append]
    rfl

end Excerpt

end NamedSql
