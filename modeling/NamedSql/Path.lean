import NamedSql.Text.Utf8

namespace NamedSql

/-- A path as the system has it: names between slashes, in bytes that need not be UTF-8. -/
abbrev Path := List UInt8

namespace Path

def slash : UInt8 := 0x2F

def dot : UInt8 := 0x2E

/-- The name of this directory. -/
def here : Path := [dot]

/-- The name of the directory above. -/
def upper : Path := [dot, dot]

/-- The parts of a path between its slashes. -/
def segments : Path → List Path
  | [] => [[]]
  | b :: bs =>
    if b = slash then [] :: segments bs
    else
      match segments bs with
      | [] => [[b]]
      | s :: rest => (b :: s) :: rest

/-- The names in a path, the dots for this and the upper directory among them. -/
def names (path : Path) : List Path :=
  (segments path).filter fun s => !s.isEmpty

/-- The names in a path without the dots for this directory. -/
def parts (path : Path) : List Path :=
  (names path).filter fun name => name != here

/-- Whether a path begins at the root. -/
def isAbsolute (path : Path) : Bool :=
  path.head? == some slash

/-- Whether a path ends in a slash. -/
def endsInSlash (path : Path) : Bool :=
  path.getLast? == some slash

/-- The names to follow. A slash at the end asks for a directory. -/
def steps (path : Path) : List Path :=
  if endsInSlash path then names path ++ [here] else names path

/-- The path of `name` in the directory `dir`. -/
def join (dir name : Path) : Path :=
  if dir.isEmpty || endsInSlash dir then dir ++ name else dir ++ slash :: name

/-- The last name in a path, if it names something. -/
def fileName? (path : Path) : Option Path :=
  match (parts path).getLast? with
  | some name => if name = upper then none else some name
  | none => none

/-- A file name cut at its last dot. A dot that it begins with does not cut. -/
def cutExtension (name : Path) : Path × Option Path :=
  match name.reverse.dropWhile (· != dot) with
  | _ :: b :: stem => ((b :: stem).reverse, some (name.reverse.takeWhile (· != dot)).reverse)
  | _ => (name, none)

/-- The file name without its extension. -/
def stem? (path : Path) : Option Path :=
  (fileName? path).map fun name => (cutExtension name).1

/-- What stands behind the last dot of the file name. -/
def extension? (path : Path) : Option Path :=
  (fileName? path).bind fun name => (cutExtension name).2

/-- Whether a path has the extension of SQL files. -/
def isSql (path : Path) : Bool :=
  extension? path == some (utf8Bytes "sql")

/-- Whether a path comes no later than another one, byte by byte. -/
def le : Path → Path → Bool
  | [], _ => true
  | _ :: _, [] => false
  | a :: as, b :: bs => a.toNat < b.toNat || (a == b && le as bs)

/-- A path as it is shown. -/
def display (path : Path) : String :=
  lossyText path

end Path

end NamedSql
