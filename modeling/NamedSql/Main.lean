import NamedSql.Command

namespace NamedSql

/-- What an error of the machine means. -/
def SystemError.ofMachine : IO.Error → SystemError
  | .noFileOrDirectory .. => .notFound
  | .alreadyExists .. => .exists
  | .inappropriateType _ 20 _ => .notDirectory
  | .inappropriateType _ 21 _ => .isDirectory
  | error => .other (toString error)

/-- Runs an action on the machine and keeps its error as a value. -/
def onMachine {α : Type} (action : IO α) : IO (Except SystemError α) := do
  match ← action.toBaseIO with
  | .ok value => return .ok value
  | .error error => return .error (.ofMachine error)

def onDisk (path : Path) :=
  System.mkFilePath [Path.display path]

/-- The disk of the machine. Its paths are those that are text. -/
def machineDisk : Disk IO where
  list path := onMachine do
    let entries ← (onDisk path).readDir
    return entries.toList.map fun entry => .ok (utf8Bytes entry.fileName)
  read path := do
    if !(← (onDisk path).pathExists) then return .missing
    match ← onMachine (IO.FS.readBinFile (onDisk path)) with
    | .error cause => return .unreadable cause
    | .ok bytes =>
      match String.fromUTF8? bytes with
      | some content => return .text content
      | none => return .unreadable .notText
  makeDirectory path := onMachine (IO.FS.createDirAll (onDisk path))
  write path content := onMachine (IO.FS.writeFile (onDisk path) content)

end NamedSql

def main (words : List String) : IO UInt32 := do
  let outcome ← NamedSql.Command.run NamedSql.machineDisk (words.map NamedSql.utf8Bytes)
  IO.print outcome.stdout
  IO.eprint outcome.stderr
  return outcome.code
