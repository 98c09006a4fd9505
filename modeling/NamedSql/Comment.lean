import NamedSql.Segment
import NamedSql.Text.Blank

namespace NamedSql

/-- What a segment leaves behind: nothing of a line comment, and one space of a block comment, so
that the words around it stay apart. -/
def Segment.withoutComment : Segment → List Char
  | .code chars => chars
  | .region r =>
    match r.kind with
    | .lineComment => []
    | .blockComment => [' ']
    | _ => r.text

/-- The text without its comments, trimmed. -/
def stripComments (text : List Char) : List Char :=
  trim ((Segment.ofText text).flatMap Segment.withoutComment)

/-- Whether nothing but blanks and comments stands in the text. -/
def isCommentOnly (text : List Char) : Bool :=
  (stripComments text).isEmpty

/-- Whether the comments stay in the text of a statement. -/
inductive CommentPolicy
  | strip
  | keep
deriving DecidableEq

/-- The text of a statement under the policy. It is trimmed in any case. -/
def CommentPolicy.apply : CommentPolicy → List Char → List Char
  | .strip, sql => stripComments sql
  | .keep, sql => trim sql

/-- The script without its comments, trimmed. -/
def removeComments (script : String) : String :=
  String.ofList (stripComments script.toList)

@[simp] theorem trim_stripComments (text : List Char) :
    trim (stripComments text) = stripComments text :=
  trim_trim _

end NamedSql
