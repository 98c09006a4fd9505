import NamedSql.Excerpt
import NamedSql.Template.Marker
import NamedSql.Text.Quoted

namespace NamedSql

/-- What can be wrong with a template. The SQL in it is never wrong. -/
inductive TemplateError
  /-- The header has no class name. -/
  | emptyClassName
  /-- The class name is no identifier. -/
  | invalidClassName (name : String)
  /-- A marker gives a name that is no identifier. -/
  | invalidStatementName (name : String) (line : Nat)
  /-- A marker gives a name that an earlier one has given. -/
  | duplicateStatementName (name : String) (line : Nat)
deriving DecidableEq

def TemplateError.message : TemplateError → String
  | .emptyClassName => "Class name cannot be empty: " ++ quoted "#"
  | .invalidClassName name => s!"Invalid class name {quoted name} on line 1"
  | .invalidStatementName name line => s!"Invalid statement name {quoted name} on line {line}"
  | .duplicateStatementName name line => s!"Duplicate statement name {quoted name} on line {line}"

/-- The part of a template from one marker to the next. The first part has no marker. -/
structure Section where
  marker : Option Marker
  start : Position
  text : List Char
deriving DecidableEq

/-- A template without its header and markers. -/
structure Outline where
  className : Option String
  sections : List Section
deriving DecidableEq

namespace Outline

/-- Takes the class name from the first line, and blanks that line if it is a header. -/
def readHeader : List Line → Except TemplateError (Option String × List Line)
  | [] => .ok (none, [])
  | first :: rest =>
    match Header.ofLine first with
    | .absent => .ok (none, first :: rest)
    | .empty => .error .emptyClassName
    | .named name =>
      if isIdentifier name then .ok (some (String.ofList name), first.blank :: rest)
      else .error (.invalidClassName (String.ofList name))

/-- The text of the lines with those blanked that look like markers. -/
def withoutMarkers (lines : List Line) : List Char :=
  lines.flatMap fun l => if l.markerName?.isSome then l.blank.text else l.text

/-- The strings, block comments and dollar-quoted blocks of a script, with their first bytes. -/
def opaqueRegions (script : List Char) : List (Nat × Region) :=
  (Segment.locate .origin (Segment.ofText script)).filterMap fun (start, segment) =>
    match segment with
    | .region r => if r.kind = .lineComment then none else some (start.byte, r)
    | .code _ => none

/-- The marker that a line is, unless it begins inside one of the regions. -/
def marker? (regions : List (Nat × Region)) (l : Line) : Option Marker :=
  if regions.any fun (start, r) => r.encloses start l.start.byte then none
  else l.markerName?.map fun name => ⟨name, l.start.line⟩

/-- Cuts lines at their markers into the text in front of the first marker and the sections of the
markers. The section of a marker begins behind its name. -/
def cutAtMarkers (marker? : Line → Option Marker) : List Line → List Char × List Section
  | [] => ([], [])
  | l :: rest =>
    let (text, sections) := cutAtMarkers marker? rest
    match marker? l with
    | some marker => ([], ⟨some marker, l.contentStop, l.ending ++ text⟩ :: sections)
    | none => (l.text ++ text, sections)

/-- Refuses the first marker whose name is no identifier or was given before. -/
def checkNames (given : List String) : List Marker → Except TemplateError Unit
  | [] => .ok ()
  | marker :: rest =>
    if !isIdentifier marker.name.toList then
      .error (.invalidStatementName marker.name marker.line)
    else if given.contains marker.name then
      .error (.duplicateStatementName marker.name marker.line)
    else checkNames (marker.name :: given) rest

/-- A line that looks like a name marker is one unless it stands inside a string, a block comment or a
dollar-quoted block. Those are found with the header and all lines blanked that look like markers. -/
def ofText (text : List Char) : Except TemplateError Outline := do
  let (className, lines) ← readHeader (Line.ofText text)
  let regions := opaqueRegions (withoutMarkers lines)
  let (lead, sections) := cutAtMarkers (marker? regions) lines
  checkNames [] (sections.filterMap Section.marker)
  return ⟨className, ⟨none, .origin, lead⟩ :: sections⟩

end Outline

end NamedSql
