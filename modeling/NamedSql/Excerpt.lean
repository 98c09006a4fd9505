import NamedSql.Segment
import NamedSql.Text.Blank

namespace NamedSql

/-- A part of a text together with the place where it begins. -/
structure Excerpt where
  start : Position
  chars : List Char
deriving DecidableEq

namespace Excerpt

/-- The place just after the excerpt. -/
def stop (e : Excerpt) : Position :=
  e.start.after e.chars

/-- The first and the past-the-last byte. -/
def span (e : Excerpt) : Nat × Nat :=
  (e.start.byte, e.stop.byte)

/-- The excerpt without the blanks at its two ends. -/
def trim (e : Excerpt) : Excerpt :=
  ⟨e.start.after (e.chars.takeWhile isBlank), NamedSql.trim e.chars⟩

end Excerpt

/-- Puts `chars` in front of the first piece. -/
def extendPiece (chars : List Char) : List (List Char) → List (List Char)
  | [] => [chars]
  | piece :: rest => (chars ++ piece) :: rest

/-- Puts a character of code in front of the pieces. A semicolon ends the piece before it. -/
def extendCode (c : Char) (pieces : List (List Char)) : List (List Char) :=
  if c = ';' then [] :: pieces else extendPiece [c] pieces

/-- The parts between the semicolons of the code, in order. There is at least one. -/
def pieces : List Segment → List (List Char)
  | [] => [[]]
  | .code chars :: rest => chars.foldr extendCode (pieces rest)
  | .region region :: rest => extendPiece region.text (pieces rest)

/-- Each piece with the place where it begins, when one character stands between two pieces. -/
def Excerpt.locate (start : Position) : List (List Char) → List Excerpt
  | [] => []
  | piece :: rest => ⟨start, piece⟩ :: locate (start.after (piece ++ [';'])) rest

/-- The statements of a script that begins at `start`, trimmed, without the blank ones. -/
def Excerpt.ofScript (start : Position) (text : List Char) : List Excerpt :=
  ((locate start (pieces (Segment.ofText text))).map trim).filter fun e => !e.chars.isEmpty

/-- The texts of the statements of a script. -/
def splitStatements (script : String) : List String :=
  (Excerpt.ofScript .origin script.toList).map fun e => String.ofList e.chars

/-- The byte ranges of the statements of a script. -/
def statementSpans (script : String) : List (Nat × Nat) :=
  (Excerpt.ofScript .origin script.toList).map Excerpt.span

theorem extendPiece_ne_nil (chars : List Char) (ps : List (List Char)) :
    extendPiece chars ps ≠ [] := by
  unfold extendPiece
  split <;> simp

theorem extendCode_ne_nil (c : Char) (ps : List (List Char)) : extendCode c ps ≠ [] := by
  unfold extendCode
  split
  · simp
  · exact extendPiece_ne_nil _ _

theorem pieces_ne_nil (segments : List Segment) : pieces segments ≠ [] := by
  induction segments with
  | nil => simp [pieces]
  | cons s rest ih =>
    cases s with
    | region region => exact extendPiece_ne_nil _ _
    | code chars =>
      cases chars with
      | nil => exact ih
      | cons c cs => exact extendCode_ne_nil _ _

/-- The script whose pieces these are. -/
def joinPieces : List (List Char) → List Char
  | [] => []
  | [piece] => piece
  | piece :: next :: rest => piece ++ ';' :: joinPieces (next :: rest)

theorem joinPieces_extendPiece (chars : List Char) (ps : List (List Char)) :
    joinPieces (extendPiece chars ps) = chars ++ joinPieces ps := by
  match ps with
  | [] => simp [extendPiece, joinPieces]
  | [piece] => rfl
  | piece :: next :: rest => simp [extendPiece, joinPieces]

theorem joinPieces_extendCode (c : Char) {ps : List (List Char)} (h : ps ≠ []) :
    joinPieces (extendCode c ps) = c :: joinPieces ps := by
  unfold extendCode
  split
  · match ps with
    | piece :: rest => simp_all [joinPieces]
  · exact joinPieces_extendPiece [c] ps

/-- Joined by semicolons, the pieces are the script. -/
theorem joinPieces_pieces (segments : List Segment) :
    joinPieces (pieces segments) = Segment.join segments := by
  induction segments with
  | nil => rfl
  | cons s rest ih =>
    cases s with
    | region region => simp [pieces, joinPieces_extendPiece, ih, Segment.text]
    | code chars =>
      have : ∀ cs : List Char, joinPieces (cs.foldr extendCode (pieces rest)) =
          cs ++ joinPieces (pieces rest) := by
        intro cs
        induction cs with
        | nil => rfl
        | cons c cs ihc =>
          have hne : cs.foldr extendCode (pieces rest) ≠ [] := by
            cases cs with
            | nil => exact pieces_ne_nil rest
            | cons d ds => exact extendCode_ne_nil _ _
          rw [List.foldr_cons, joinPieces_extendCode c hne, ihc, List.cons_append]
      simp [pieces, this, ih, Segment.text]

end NamedSql
