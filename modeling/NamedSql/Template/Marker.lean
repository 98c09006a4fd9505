import NamedSql.Identifier
import NamedSql.Template.Line
import NamedSql.Text.WordChar

namespace NamedSql

/-- The word that a text is, but for blanks in front of it. -/
def wordAfterBlanks? (text : List Char) : Option (List Char) :=
  let word := trimStart text
  if !word.isEmpty && word.all isWordChar then some word else none

/-- The name in a trimmed line of the form "#name". -/
def hashName? : List Char → Option (List Char)
  | '#' :: rest => wordAfterBlanks? rest
  | _ => none

/-- The name in a trimmed line of the form "-- name: name". The first of the two words may be in any
ASCII case. -/
def commentName? : List Char → Option (List Char)
  | '-' :: '-' :: rest =>
    let body := trimStart rest
    if (body.take 4).map Char.toLower = "name".toList then
      match trimStart (body.drop 4) with
      | ':' :: word => wordAfterBlanks? word
      | _ => none
    else none
  | _ => none

/-- The name that a line gives when it is a name marker. -/
def Line.markerName? (l : Line) : Option String :=
  let trimmed := trim l.content
  ((hashName? trimmed).or (commentName? trimmed)).map String.ofList

/-- What the first line of a template says about the class name. -/
inductive Header
  | absent
  /-- It is a lone hash. -/
  | empty
  /-- It is a hash, a space and this text. -/
  | named (name : List Char)
deriving DecidableEq

/-- Reads the first line of a template as a header. -/
def Header.ofLine (l : Line) : Header :=
  match trim l.content with
  | ['#'] => .empty
  | '#' :: ' ' :: rest => .named (trim rest)
  | _ => .absent

/-- A name marker that counts. -/
structure Marker where
  name : String
  /-- The number of its line. -/
  line : Nat
deriving DecidableEq

end NamedSql
