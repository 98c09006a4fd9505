import NamedSql.Segment
import NamedSql.Text.Quoted

namespace NamedSql

inductive Notice.Level
  | debug
  | info
  | warn
deriving DecidableEq

inductive Notice
  /-- A region has no closing delimiter. -/
  | unterminated (kind : Region.Kind) (byte : Nat)
  /-- A piece of a template holds only comments. -/
  | commentOnly (byte : Nat)
  /-- A second statement follows one name marker. -/
  | unnamedStatement (markerName : String) (markerLine : Nat)
  /-- No statement follows a name marker. -/
  | danglingMarker (markerName : String) (markerLine : Nat)
  | loaded (path : String) (bytes : Nat)
  | wrote (manifestPath reportPath : String)
  | unusualExtension (path : String)
  | summary (path className : String) (statements fetch execute : Nat)
deriving DecidableEq

namespace Notice

def Level.label : Level → String
  | .debug => "DEBUG"
  | .info => "INFO"
  | .warn => "WARN"

def level : Notice → Level
  | .danglingMarker .. | .unusualExtension .. => .warn
  | .wrote .. => .info
  | _ => .debug

/-- The part of the program that a notice comes from. -/
def target : Notice → String
  | .unterminated .. => "sql2bind::parser::splitter"
  | .commentOnly .. | .unnamedStatement .. | .danglingMarker .. | .loaded .. =>
    "sql2bind::parser::template"
  | .wrote .. => "sql2bind::output::formatter"
  | .unusualExtension .. | .summary .. => "sql2bind"

/-- The name of a kind of region in a notice. -/
def kindLabel : Region.Kind → String
  | .singleQuoted => "SingleQuoted"
  | .doubleQuoted => "DoubleQuoted"
  | .lineComment => "LineComment"
  | .blockComment => "BlockComment"
  | .dollarQuoted tag => "DollarQuoted \x7b tag: " ++ quoted (String.ofList tag) ++ " \x7d"

def message : Notice → String
  | .unterminated kind byte =>
    s!"unterminated {kindLabel kind} at byte {byte}; " ++
      "treating the rest of the script as its content"
  | .commentOnly byte => s!"skipping comment-only fragment at byte {byte}"
  | .unnamedStatement name line =>
    s!"statement after '{name}' (line {line}) has no marker of its own"
  | .danglingMarker name line =>
    s!"name marker '{name}' on line {line} is not followed by a statement; ignored"
  | .loaded path bytes => s!"loaded template {path} ({bytes} bytes)"
  | .wrote manifestPath reportPath => s!"wrote {manifestPath} and {reportPath}"
  | .unusualExtension path => path ++ " doesn't have .sql extension"
  | .summary path className statements fetch execute =>
    s!"{path}: class {className} with {statements} statements ({fetch} fetch, {execute} execute)"

/-- The notices about regions that lack a closing delimiter. -/
def ofScript (text : List Char) : List Notice :=
  (Segment.locate .origin (Segment.ofText text)).filterMap fun (start, segment) =>
    match segment with
    | .region r => if r.terminated then none else some (.unterminated r.kind start.byte)
    | .code _ => none

end Notice

/-- The notices of splitting a script. -/
def splitNotices (script : String) : List Notice :=
  Notice.ofScript script.toList

end NamedSql
