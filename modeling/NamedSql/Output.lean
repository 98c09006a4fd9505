import NamedSql.Disk
import NamedSql.Manifest.Json
import NamedSql.Notice
import NamedSql.Report

namespace NamedSql

/-- Why a name cannot be the name of output files. -/
inductive OutputName.Fault
  | blank
  | absolute
  /-- It has a part that leads to the upper directory. -/
  | traversal
  | separator
deriving DecidableEq

def OutputName.Fault.reason : OutputName.Fault → String
  | .blank => "must not be empty"
  | .absolute => "absolute paths are not allowed"
  | .traversal => "traversal segments are not allowed"
  | .separator => "path separators are not allowed"

/-- What is wrong with a name for output files. The first fault in this order counts. -/
def OutputName.fault? (name : String) : Option OutputName.Fault :=
  if (trim name.toList).isEmpty then some .blank
  else if Path.isAbsolute (utf8Bytes name) then some .absolute
  else if (Path.names (utf8Bytes name)).contains Path.upper then some .traversal
  else if name.toList.any fun c => c == '/' || c == '\\' then some .separator
  else none

inductive OutputError
  | invalidName (name : String) (fault : OutputName.Fault)
  | failed (path : Path) (cause : SystemError)
deriving DecidableEq

def OutputError.message : OutputError → String
  | .invalidName name fault => s!"Invalid output name '{name}': {fault.reason}"
  | .failed path cause => s!"Failed to write {Path.display path}: {cause.message}"

namespace Output

/-- The name of the file with the manifest. -/
def manifestFile (name : String) : Path :=
  utf8Bytes (name ++ ".json")

/-- The name of the file with the report. -/
def reportFile (name : String) : Path :=
  utf8Bytes (name ++ "_report.md")

def manifestPath (dir : Path) (name : String) : Path :=
  Path.join dir (manifestFile name)

def reportPath (dir : Path) (name : String) : Path :=
  Path.join dir (reportFile name)

/-- The notice about an output that was written. -/
def wrote (dir : Path) (name : String) : Notice :=
  .wrote (Path.display (manifestPath dir name)) (Path.display (reportPath dir name))

variable {m : Type → Type} [Monad m]

/-- Writes the manifest, then its report, into a directory that is made if need be. Nothing is
touched when the name is at fault. -/
def write (disk : Disk m) (dir : Path) (name : String) (manifest : Manifest) :
    m (Except OutputError Notice) := do
  match OutputName.fault? name with
  | some fault => return .error (.invalidName name fault)
  | none =>
    match ← disk.makeDirectory dir with
    | .error cause => return .error (.failed dir cause)
    | .ok () =>
      match ← disk.write (manifestPath dir name) manifest.text with
      | .error cause => return .error (.failed (manifestPath dir name) cause)
      | .ok () =>
        match ← disk.write (reportPath dir name) (report [manifest]) with
        | .error cause => return .error (.failed (reportPath dir name) cause)
        | .ok () => return .ok (wrote dir name)

end Output

end NamedSql
