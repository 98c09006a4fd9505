import NamedSql.Segment

namespace NamedSql

inductive Token
  | word (chars : List Char)
  | openParen
  | closeParen
  | other
deriving DecidableEq

namespace Token

/-- The characters that words are made of: those of names, and all that are not ASCII. -/
def inWord (c : Char) : Bool :=
  isNameChar c || 128 ≤ c.toNat

/-- The blanks between the tokens of code. They are ASCII and do not include the vertical tab. -/
def isSpace (c : Char) : Bool :=
  c == ' ' || c == '\t' || c == '\n' || c == '\r' || c == '\x0c'

/-- The token that a character outside words is, if any. -/
def ofChar? (c : Char) : Option Token :=
  if c == '(' then some .openParen
  else if c == ')' then some .closeParen
  else if isSpace c then none
  else some .other

/-- The tokens of a stretch of code. Words are as long as possible. -/
def ofCode : List Char → List Token
  | [] => []
  | c :: cs =>
    if inWord c then
      have : (cs.dropWhile inWord).length ≤ cs.length := (List.dropWhile_sublist _).length_le
      .word (c :: cs.takeWhile inWord) :: ofCode (cs.dropWhile inWord)
    else (ofChar? c).toList ++ ofCode cs
termination_by cs => cs.length

/-- The tokens of a segment. -/
def ofSegment : Segment → List Token
  | .code chars => ofCode chars
  | .region r => if r.kind.isComment then [] else [.other]

/-- The tokens of a text. -/
def ofText (text : List Char) : List Token :=
  (Segment.ofText text).flatMap ofSegment

@[simp] theorem ofCode_nil : ofCode [] = [] := by
  rw [ofCode]

theorem ofCode_word {c : Char} {cs : List Char} (h : inWord c) :
    ofCode (c :: cs) =
      .word (c :: cs.takeWhile inWord) :: ofCode (cs.dropWhile inWord) := by
  rw [ofCode, if_pos h]

theorem ofCode_not_word {c : Char} {cs : List Char} (h : inWord c = false) :
    ofCode (c :: cs) = (ofChar? c).toList ++ ofCode cs := by
  rw [ofCode, if_neg (by simp [h])]

end Token

end NamedSql
