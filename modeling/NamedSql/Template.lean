import NamedSql.Notice
import NamedSql.Statement
import NamedSql.Template.Outline

namespace NamedSql

structure NamedStatement where
  name : Option String
  /-- The number of the line on which the statement begins. -/
  line : Nat
  statement : Statement
  analysis : Analysis
deriving DecidableEq

structure Template where
  className : Option String
  /-- In the order of the text. -/
  statements : List NamedStatement
deriving DecidableEq

namespace Section

/-- The trimmed pieces of the section. -/
def excerpts (s : Section) : List Excerpt :=
  Excerpt.ofScript s.start s.text

/-- The pieces that are statements. -/
def statements (s : Section) : List Excerpt :=
  s.excerpts.filter fun e => !isCommentOnly e.chars

/-- The statements with their names. The first one has the name of the marker. -/
def named (s : Section) : List (Option String × Excerpt) :=
  match s.statements with
  | [] => []
  | first :: rest => (s.marker.map Marker.name, first) :: rest.map fun e => (none, e)

/-- The notices about the pieces of a section. `named` says whether the marker has its statement. -/
def pieceNotices (marker : Option Marker) (named : Bool) : List Excerpt → List Notice
  | [] =>
    if named then [] else marker.toList.map fun m => .danglingMarker m.name m.line
  | e :: rest =>
    if isCommentOnly e.chars then .commentOnly e.start.byte :: pieceNotices marker named rest
    else
      (if named then marker.toList.map fun m => .unnamedStatement m.name m.line else []) ++
        pieceNotices marker true rest

def notices (s : Section) : List Notice :=
  Notice.ofScript s.text ++ pieceNotices s.marker false s.excerpts

end Section

namespace NamedStatement

/-- The statement with the given number that an excerpt of a template is. -/
def ofExcerpt (policy : CommentPolicy) (ordinal : Nat) (name : Option String) (e : Excerpt) :
    NamedStatement :=
  let statement := Statement.ofSource policy ordinal e.chars
  ⟨name, e.start.line, statement, Analysis.ofStatement statement.text⟩

end NamedStatement

namespace Outline

def named (o : Outline) : List (Option String × Excerpt) :=
  o.sections.flatMap Section.named

/-- The template with this outline. -/
def toTemplate (policy : CommentPolicy) (o : Outline) : Template where
  className := o.className
  statements := o.named.zipIdx.map fun ((name, e), i) => .ofExcerpt policy i name e

def notices (o : Outline) : List Notice :=
  o.sections.flatMap Section.notices

end Outline

namespace Template

def parse (policy : CommentPolicy) (text : String) : Except TemplateError Template :=
  (Outline.ofText text.toList).map (Outline.toTemplate policy)

/-- The notices of reading a template. One that is refused leaves none. -/
def notices (text : String) : List Notice :=
  match Outline.ofText text.toList with
  | .ok outline => outline.notices
  | .error _ => []

def get? (template : Template) (name : String) : Option NamedStatement :=
  template.statements.find? fun s => s.name == some name

/-- The ordinals of a template that was read count its statements from zero. -/
theorem ordinals_toTemplate (policy : CommentPolicy) (o : Outline) :
    (o.toTemplate policy).statements.map (·.statement.ordinal) = List.range o.named.length := by
  apply List.ext_getElem
  · simp [Outline.toTemplate]
  · intro i h1 h2
    simp [Outline.toTemplate, NamedStatement.ofExcerpt, Statement.ofSource]

end Template

end NamedSql
