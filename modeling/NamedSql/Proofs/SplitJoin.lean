import NamedSql.Proofs.Pieces
import NamedSql.Proofs.Trim

namespace NamedSql

namespace Lexeme

/-- The scan of two texts with an inert character between them, where the first ends in code. -/
theorem scan_append_inert {c : Char} (hc : isInert c) {as bs : List Char}
    (hcl : Closed (scan none as)) (hl : EndsInLineComment (scan none as) → c = '\n') :
    scan none (as ++ c :: bs) = scan none as ++ .code c :: scan none bs := by
  have hs : Scanned none (scan none as ++ .code c :: scan none bs) :=
    (scanned_append_inert_iff hc).mpr ⟨scanned_scan none as, hcl, hl,
      (scanned_after_inert_iff hc).mpr (scanned_scan none bs)⟩
  simpa [text] using hs.scan_join

/-- The scan of a text that an inert character of its code divides. -/
theorem scan_of_append_inert {c : Char} (hc : isInert c) {text : List Char} {as bs : List Lexeme}
    (h : scan none text = as ++ .code c :: bs) :
    scan none (join as) = as ∧ scan none (join bs) = bs := by
  have hs := scanned_scan none text
  rw [h] at hs
  obtain ⟨ha, -, -, hb⟩ := (scanned_append_inert_iff hc).mp hs
  exact ⟨ha.scan_join, ((scanned_after_inert_iff hc).mp hb).scan_join⟩

theorem closed_scan_of {text : List Char}
    (h : ∀ r, .region r ∈ Segment.ofText text → r.terminated) : Closed (scan none text) := by
  intro r hr
  obtain ⟨s, hs, hm⟩ := List.mem_flatMap.mp hr
  cases s with
  | code cs => simp [Segment.lexemes] at hm
  | region r' =>
    obtain rfl : r = r' := by simpa [Segment.lexemes] using hm
    exact h r hs

theorem not_endsInLineComment_scan {text : List Char}
    (h : ∀ r, (Segment.ofText text).getLast? = some (.region r) → r.kind ≠ .lineComment) :
    ¬ EndsInLineComment (scan none text) := by
  intro hl
  obtain ⟨r, hr, hk⟩ := hl
  rcases List.eq_nil_or_concat (Segment.ofText text) with he | ⟨front, s, he⟩
  · rw [scan, show Segment.lex none text = _ from he] at hr
    simp at hr
  · have hs : s ∈ Segment.ofText text := by simp [he]
    have hne : s.text ≠ [] := Segment.text_ne_nil_of_mem_lex hs
    rw [scan, show Segment.lex none text = _ from he, List.concat_eq_append,
      List.flatMap_append] at hr
    cases s with
    | region r' =>
      obtain rfl : r' = r := by simpa [Segment.lexemes] using hr
      exact h r' (by simp [he]) hk
    | code cs =>
      obtain ⟨cs, c, rfl⟩ := (List.eq_nil_or_concat cs).resolve_left hne
      simp [Segment.lexemes] at hr

end Lexeme

theorem statementsOf_append (ps qs : List (List Char)) :
    statementsOf (ps ++ qs) = statementsOf ps ++ statementsOf qs := by
  simp [statementsOf]

/-- A blank at the end of the last piece is in no statement. -/
theorem statementsOf_last_blank {c : Char} (hc : isBlank c) (front : List (List Char))
    (piece : List Char) :
    statementsOf (front ++ [piece ++ [c]]) = statementsOf (front ++ [piece]) := by
  rw [statementsOf_append, statementsOf_append]
  simp [statementsOf, trim_append_of_all (by simpa using hc : ∀ d ∈ [c], isBlank d)]

/-- A blank in front of the first piece is in no statement. -/
theorem statementsOf_extendPiece_blank {c : Char} (hc : isBlank c) {ps : List (List Char)}
    (h : ps ≠ []) : statementsOf (extendPiece [c] ps) = statementsOf ps := by
  obtain ⟨piece, rest, rfl⟩ := List.exists_cons_of_ne_nil h
  simp [extendPiece, statementsOf, trim_cons_of_blank hc]

theorem statementsOf_concat_blank (ls : List Lexeme) {c : Char} (hc : isBlank c) :
    statementsOf (Lexeme.pieces (ls ++ [.code c])) = statementsOf (Lexeme.pieces ls) := by
  obtain ⟨front, piece, hp, hq⟩ := Lexeme.pieces_concat ls
  rw [hp, hq (.code c) (by simpa using ne_of_isBlank hc rfl)]
  exact statementsOf_last_blank hc front piece

/-- The statements of a script as texts. -/
def statementTexts (text : List Char) : List (List Char) :=
  statementsOf (Lexeme.pieces (Lexeme.scan none text))

theorem splitStatements_eq (script : String) :
    splitStatements script = (statementTexts script.toList).map String.ofList := by
  rw [statementTexts, Lexeme.pieces_scan, ← map_chars_ofScript .origin, List.map_map]
  rfl

/-- The statements of a script that a semicolon of its code divides. -/
theorem statementTexts_of_scan {text left right : List Char}
    (h : Lexeme.scan none text = Lexeme.scan none left ++ .code ';' :: Lexeme.scan none right) :
    statementTexts text = statementTexts left ++ statementTexts right := by
  rw [statementTexts, h, Lexeme.pieces_append_semicolon, statementsOf_append]
  rfl

theorem statementTexts_append_newline_semicolon {as : List Char} (bs : List Char)
    (h : Lexeme.Closed (Lexeme.scan none as)) :
    statementTexts (as ++ '\n' :: ';' :: bs) = statementTexts as ++ statementTexts bs := by
  -- The newline closes a line comment and is code itself, so that a semicolon can follow it.
  have hs : Lexeme.scan none (as ++ '\n' :: ';' :: bs) =
      Lexeme.scan none as ++ .code '\n' :: .code ';' :: Lexeme.scan none bs := by
    rw [Lexeme.scan_append_inert isInert_newline h fun _ => rfl,
      Lexeme.scan_cons_inert isInert_semicolon]
  rw [statementTexts, hs, ← List.singleton_append, ← List.append_assoc,
    Lexeme.pieces_append_semicolon, statementsOf_append, statementsOf_concat_blank _ (by decide)]
  rfl

theorem statementTexts_append_semicolon {as : List Char} (bs : List Char)
    (h : Lexeme.Closed (Lexeme.scan none as))
    (hl : ¬ Lexeme.EndsInLineComment (Lexeme.scan none as)) :
    statementTexts (as ++ ';' :: bs) = statementTexts as ++ statementTexts bs :=
  statementTexts_of_scan (Lexeme.scan_append_inert isInert_semicolon h fun he => absurd he hl)

theorem splitStatements_append_newline_semicolon {a : String} (b : String)
    (h : Lexeme.Closed (Lexeme.scan none a.toList)) :
    splitStatements (a ++ "\n;" ++ b) = splitStatements a ++ splitStatements b := by
  have ht : (a ++ "\n;" ++ b).toList = a.toList ++ '\n' :: ';' :: b.toList := by simp
  rw [splitStatements_eq, ht, statementTexts_append_newline_semicolon _ h, List.map_append,
    ← splitStatements_eq, ← splitStatements_eq]

theorem splitStatements_append_semicolon {a : String} (b : String)
    (h : Lexeme.Closed (Lexeme.scan none a.toList))
    (hl : ¬ Lexeme.EndsInLineComment (Lexeme.scan none a.toList)) :
    splitStatements (a ++ ";" ++ b) = splitStatements a ++ splitStatements b := by
  have ht : (a ++ ";" ++ b).toList = a.toList ++ ';' :: b.toList := by simp
  rw [splitStatements_eq, ht, statementTexts_append_semicolon _ h hl, List.map_append,
    ← splitStatements_eq, ← splitStatements_eq]

theorem exists_halves_of_topSemicolon {script : String} {k : Nat}
    (h : TopSemicolon script.toList k) :
    ∃ left right : String, script = left ++ ";" ++ right ∧ left.utf8ByteSize = k ∧
      splitStatements script = splitStatements left ++ splitStatements right := by
  obtain ⟨as, bs, hs, rfl⟩ := topSemicolon_iff.mp h
  obtain ⟨ha, hb⟩ := Lexeme.scan_of_append_inert isInert_semicolon hs
  refine ⟨String.ofList (Lexeme.join as), String.ofList (Lexeme.join bs), ?_,
    utf8ByteSize_ofList _, ?_⟩
  · have hj := congrArg Lexeme.join hs
    rw [Lexeme.join_scan] at hj
    apply String.toList_inj.mp
    simp [hj, Lexeme.text]
  · rw [splitStatements_eq, splitStatements_eq, splitStatements_eq, String.toList_ofList,
      String.toList_ofList, ← List.map_append]
    refine congrArg _ (statementTexts_of_scan ?_)
    rw [hs, ha, hb]

/-- Splitting is compositional, from the parts to the whole and from the whole to its parts. -/
theorem splitStatements_compositional :
    (∀ a b : String, (∀ r, .region r ∈ Segment.ofText a.toList → r.terminated) →
      splitStatements (a ++ "\n;" ++ b) = splitStatements a ++ splitStatements b ∧
      ((∀ r, (Segment.ofText a.toList).getLast? = some (.region r) → r.kind ≠ .lineComment) →
        splitStatements (a ++ ";" ++ b) = splitStatements a ++ splitStatements b)) ∧
    ∀ (script : String) (k : Nat), TopSemicolon script.toList k →
      ∃ left right : String, script = left ++ ";" ++ right ∧ left.utf8ByteSize = k ∧
        splitStatements script = splitStatements left ++ splitStatements right := by
  refine ⟨fun a b h => ?_, fun script k h => exists_halves_of_topSemicolon h⟩
  have hc := Lexeme.closed_scan_of h
  exact ⟨splitStatements_append_newline_semicolon b hc,
    fun hl => splitStatements_append_semicolon b hc (Lexeme.not_endsInLineComment_scan hl)⟩

theorem splitStatements_compositional_trailing_comment :
    splitStatements ("SELECT ';' -- a;" ++ "\n;" ++ "DO $x$;$x$") =
        splitStatements "SELECT ';' -- a;" ++ splitStatements "DO $x$;$x$" ∧
      splitStatements ("SELECT '-- a;'" ++ ";" ++ "$1") =
        splitStatements "SELECT '-- a;'" ++ splitStatements "$1" ∧
      ∃ left right : String, "é';';b" = left ++ ";" ++ right ∧ left.utf8ByteSize = 5 ∧
        splitStatements "é';';b" = splitStatements left ++ splitStatements right := by
  have h₁ : Segment.ofText "SELECT ';' -- a;".toList = [.code "SELECT ".toList,
      .region ⟨.singleQuoted, "';'".toList, true⟩, .code [' '],
      .region ⟨.lineComment, "-- a;".toList, true⟩] := by decide +kernel
  have h₂ : Segment.ofText "SELECT '-- a;'".toList = [.code "SELECT ".toList,
      .region ⟨.singleQuoted, "'-- a;'".toList, true⟩] := by decide +kernel
  have h₃ : Segment.locate .origin (Segment.ofText "é';';b".toList) = [(⟨0, 1⟩, .code ['é']),
      (⟨2, 1⟩, .region ⟨.singleQuoted, "';'".toList, true⟩), (⟨5, 1⟩, .code [';', 'b'])] := by
    decide +kernel
  refine ⟨(splitStatements_compositional.1 _ _ ?_).1, (splitStatements_compositional.1 _ _ ?_).2 ?_,
    splitStatements_compositional.2 _ _ ⟨⟨5, 1⟩, [';', 'b'], ?_, [], ['b'], rfl, rfl⟩⟩
  · rw [h₁]
    simp
  · rw [h₂]
    simp
  · rw [h₂]
    simp
  · rw [h₃]
    simp

end NamedSql
