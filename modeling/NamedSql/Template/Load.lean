import NamedSql.Disk
import NamedSql.Template

namespace NamedSql

/-- Why a template file gives no template. -/
inductive LoadError
  | missing (path : Path)
  | unreadable (path : Path) (cause : SystemError)
  | malformed (error : TemplateError)
deriving DecidableEq

def LoadError.message : LoadError → String
  | .missing path => s!"SQL file not found: {Path.display path}"
  | .unreadable path cause => s!"Error reading SQL file {Path.display path}: {cause.message}"
  | .malformed error => error.message

namespace Template

/-- The template in a file that gave `reading`, with the notices on the way. -/
def ofReading (policy : CommentPolicy) (path : Path) (reading : Reading) :
    List Notice × Except LoadError Template :=
  match reading with
  | .missing => ([], .error (.missing path))
  | .unreadable cause => ([], .error (.unreadable path cause))
  | .text content =>
    (.loaded (Path.display path) content.utf8ByteSize :: notices content,
      (parse policy content).mapError LoadError.malformed)

end Template

end NamedSql
