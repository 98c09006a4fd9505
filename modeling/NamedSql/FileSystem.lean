import NamedSql.Disk

namespace NamedSql

/-- The names on the way from the root. -/
abbrev Location := List Path

/-- What can stand at a location. Devices, pipes and sockets cannot. -/
inductive Node
  | directory
  /-- The file with the given number, which can stand at several locations. -/
  | file (number : Nat)
  /-- A symbolic link to what its target leads to from the directory of the link. -/
  | link (target : Path)
deriving DecidableEq

/-- The number of the file that stands there, if it is one. -/
def Node.number? : Node → Option Nat
  | .file number => some number
  | _ => none

/-- What a file holds. -/
inductive Content
  | text (content : String)
  /-- Bytes that are no UTF-8 text. -/
  | binary
deriving DecidableEq

/-- What a program can be refused. -/
inductive Access
  /-- Looking up a name in a directory. -/
  | search
  /-- Listing a directory. -/
  | list
  /-- Making something in a directory. -/
  | create
  | read
  | write
deriving DecidableEq

/-- What fails at which location, be it for want of permission or of space or by a fault of the
disk. It stays the same while a program runs. -/
structure Trouble where
  refusal? : Access → Location → Option SystemError
  /-- After how many entries the listing of a directory breaks off, and why. -/
  breakOff? : Location → Option (Nat × SystemError)
  /-- What a file holds when the writing of it breaks off, and why it does. -/
  remnant? : Location → Option (Content × SystemError)

def Trouble.none : Trouble where
  refusal? _ _ := .none
  breakOff? _ := .none
  remnant? _ := .none

/-- What stands at which location, what each file holds, and where relative paths begin. Nobody else
changes anything while a program runs. -/
structure FileSystem where
  workingDirectory : Location
  nodes : List (Location × Node)
  contents : List (Nat × Content)
  trouble : Trouble := .none

namespace FileSystem

/-- The file system in which there is only the working directory and what is above it. -/
def empty (workingDirectory : Location) : FileSystem where
  workingDirectory := workingDirectory
  nodes := (List.range workingDirectory.length).map fun n =>
    (workingDirectory.take (n + 1), .directory)
  contents := []

/-- What stands at a location. The root is always a directory. -/
def node? (fs : FileSystem) (location : Location) : Option Node :=
  if location.isEmpty then some .directory else fs.nodes.lookup location

/-- What the file with a number holds. -/
def content (fs : FileSystem) (number : Nat) : Content :=
  (fs.contents.lookup number).getD (.text "")

def put (fs : FileSystem) (location : Location) (node : Node) : FileSystem :=
  { fs with nodes := (location, node) :: fs.nodes.filter fun entry => entry.1 != location }

def fill (fs : FileSystem) (number : Nat) (content : Content) : FileSystem :=
  { fs with contents := (number, content) :: fs.contents.filter fun entry => entry.1 != number }

/-- A number that no file has. -/
def fresh (fs : FileSystem) : Nat :=
  (fs.nodes.filterMap fun (_, node) => node.number?).foldr max 0 + 1

/-- The largest number of bytes in a name. -/
def maxName : Nat := 255

/-- The number of bytes that no path may have. -/
def pathLimit : Nat := 4096

/-- The largest number of symbolic links on a way. -/
def maxLinks : Nat := 40

/-- Refuses paths that no system call takes. -/
def checkPath (path : Path) : Except SystemError Unit :=
  if path.contains 0 then .error .zeroInPath
  else if path.length ≥ pathLimit then .error .nameTooLong
  else .ok ()

/-- Where a path begins that is relative to a location. -/
def startFrom (here : Location) (path : Path) : Location :=
  if Path.isAbsolute path then [] else here

def start (fs : FileSystem) (path : Path) : Location :=
  startFrom fs.workingDirectory path

/-- The location of a name in a directory. Nothing needs to stand there. -/
def step (fs : FileSystem) (here : Location) (name : Path) : Except SystemError Location :=
  match fs.node? here with
  | some .directory =>
    match fs.trouble.refusal? .search here with
    | some cause => .error cause
    | none =>
      if name = Path.here then .ok here
      else if name = Path.upper then .ok here.dropLast
      else if name.length > maxName then .error .nameTooLong
      else .ok (here ++ [name])
  | some _ => .error .notDirectory
  | none => .error .notFound

/-- Follows names from a directory up to a symbolic link, and goes on by `jump` there. -/
def walk (fs : FileSystem) (jump : Location → List Path → Except SystemError Location)
    (here : Location) : List Path → Except SystemError Location
  | [] => .ok here
  | name :: rest =>
    match fs.step here name with
    | .error cause => .error cause
    | .ok there =>
      match fs.node? there with
      | some (.link target) => jump (startFrom here target) (Path.steps target ++ rest)
      | _ => fs.walk jump there rest

/-- Follows names from a directory through no more than the given number of symbolic links. -/
def followThrough (fs : FileSystem) : Nat → Location → List Path → Except SystemError Location
  | 0 => fs.walk fun _ _ => .error .tooManyLinks
  | links + 1 => fs.walk (fs.followThrough links)

/-- Follows names from a directory. The last one may lead to nothing. -/
def follow (fs : FileSystem) : Location → List Path → Except SystemError Location :=
  fs.followThrough maxLinks

/-- The location that a path leads to. -/
def locate (fs : FileSystem) (path : Path) : Except SystemError Location := do
  checkPath path
  if path.isEmpty then throw .notFound
  fs.follow (fs.start path) (Path.steps path)

/-- The location that a path leads to, and what stands there. -/
def find (fs : FileSystem) (path : Path) : Except SystemError (Location × Node) := do
  let location ← fs.locate path
  match fs.node? location with
  | some node => return (location, node)
  | none => throw .notFound

def read (fs : FileSystem) (path : Path) : Reading :=
  match fs.find path with
  | .error _ => .missing
  | .ok (location, node) =>
    match fs.trouble.refusal? .read location, node with
    | some cause, _ => .unreadable cause
    | none, .file number =>
      match fs.content number with
      | .text content => .text content
      | .binary => .unreadable .notText
    -- No way ends at a link.
    | none, _ => .unreadable .isDirectory

/-- The names of what stands directly in a directory. -/
def children (fs : FileSystem) (location : Location) : List Path :=
  fs.nodes.filterMap fun (there, _) =>
    if there.dropLast == location then there.getLast? else none

/-- What listing a directory gives. Nothing follows an entry that fails. -/
def entries (fs : FileSystem) (location : Location) : List (Except SystemError Path) :=
  match fs.trouble.breakOff? location with
  | none => (fs.children location).map .ok
  | some (count, cause) => ((fs.children location).take count).map .ok ++ [.error cause]

/-- The entries of the directory under a path. -/
def list (fs : FileSystem) (path : Path) :
    Except SystemError (List (Except SystemError Path)) := do
  match ← fs.find path with
  | (location, .directory) =>
    match fs.trouble.refusal? .list location with
    | some cause => throw cause
    | none => return fs.entries location
  | _ => throw .notDirectory

/-- Whether names lead to a directory. -/
def isDirectory (fs : FileSystem) (here : Location) (names : List Path) : Bool :=
  match fs.follow here names with
  | .ok location => fs.node? location == some .directory
  | .error _ => false

/-- Makes a directory under a name in the directory that other names lead to. A link under that name
is in its way. -/
def make (fs : FileSystem) (start : Location) (front : List Path) (name : Path) :
    FileSystem × Except SystemError Unit :=
  match fs.follow start front with
  | .error cause => (fs, .error cause)
  | .ok here =>
    match fs.step here name with
    | .error cause => (fs, .error cause)
    | .ok there =>
      if (fs.node? there).isSome then (fs, .error .exists)
      else
        match fs.trouble.refusal? .create here with
        | some cause => (fs, .error cause)
        | none => (fs.put there .directory, .ok ())

/-- Makes a directory if there is none. -/
def ensure (fs : FileSystem) (start : Location) (front : List Path) (name : Path) :
    FileSystem × Except SystemError Unit :=
  match fs.make start front name with
  | (made, .ok ()) => (made, .ok ())
  | (_, .error cause) =>
    (fs, if fs.isDirectory start (front ++ [name]) then .ok () else .error cause)

/-- Makes a directory if there is none. If one above it is missing, it comes after `above`. -/
def makeAfter (fs : FileSystem) (start : Location) (front : List Path) (name : Path)
    (above : FileSystem × Except SystemError Unit) : FileSystem × Except SystemError Unit :=
  match (fs.make start front name).2 with
  | .error .notFound =>
    match above with
    | (made, .error cause) => (made, .error cause)
    | (made, .ok ()) => made.ensure start front name
  | _ => fs.ensure start front name

/-- Makes the directory under names and those above it that are missing. The last name comes
first. -/
def makeAll (fs : FileSystem) (start : Location) : List Path → FileSystem × Except SystemError Unit
  | [] => (fs, .ok ())
  | name :: above => fs.makeAfter start above.reverse name (fs.makeAll start above)

/-- Makes the directory under a path and those above it that are missing. A dot at the end asks for
what the directory before it holds, which is not made. -/
def makeDirectory (fs : FileSystem) (path : Path) : FileSystem × Except SystemError Unit :=
  let parts := Path.parts path
  match checkPath path with
  | .error cause => (fs, .error cause)
  | .ok () =>
    if (Path.names path).getLast? = some Path.here then
      fs.makeAfter (fs.start path) parts Path.here
        (fs.makeAll (fs.start path) parts.dropLast.reverse)
    else fs.makeAll (fs.start path) parts.reverse

/-- Writes the file at a location, which loses what it held before. -/
def overwrite (fs : FileSystem) (location : Location) (number : Nat) (content : String) :
    FileSystem × Except SystemError Unit :=
  match fs.trouble.remnant? location with
  | some (remnant, cause) => (fs.fill number remnant, .error cause)
  | none => (fs.fill number (.text content), .ok ())

/-- Writes the file that a path leads to, also through a link, and makes it if there is none. -/
def write (fs : FileSystem) (path : Path) (content : String) :
    FileSystem × Except SystemError Unit :=
  match fs.locate path with
  | .error cause => (fs, .error cause)
  | .ok location =>
    match fs.node? location with
    | none =>
      match fs.trouble.refusal? .create location.dropLast with
      | some cause => (fs, .error cause)
      | none => (fs.put location (.file fs.fresh)).overwrite location fs.fresh content
    | some (.file number) =>
      match fs.trouble.refusal? .write location with
      | some cause => (fs, .error cause)
      | none => fs.overwrite location number content
    | some _ => (fs, .error .isDirectory)

/-- The disk of a file system that is carried along as a state. -/
def disk : Disk (StateM FileSystem) where
  list path := fun fs => (fs.list path, fs)
  read path := fun fs => (fs.read path, fs)
  makeDirectory path := fun fs => (fs.makeDirectory path).swap
  write path content := fun fs => (fs.write path content).swap

@[simp] theorem run_list (fs : FileSystem) (path : Path) :
    (disk.list path).run fs = (fs.list path, fs) := rfl

@[simp] theorem run_read (fs : FileSystem) (path : Path) :
    (disk.read path).run fs = (fs.read path, fs) := rfl

/-- There is always something at the root. -/
theorem ne_nil_of_node?_eq_none {fs : FileSystem} {location : Location}
    (h : fs.node? location = none) : location ≠ [] := by
  rintro rfl
  cases h

theorem node?_put_self (fs : FileSystem) {location : Location} (node : Node) (h : location ≠ []) :
    (fs.put location node).node? location = some node := by
  simp [node?, put, h]

/-- A key is found among the entries with other keys as it is among all. -/
theorem lookup_cons_filter {κ α : Type} [BEq κ] [LawfulBEq κ] {key other : κ} (value : α)
    (entries : List (κ × α)) (h : other ≠ key) :
    ((key, value) :: entries.filter fun entry => entry.1 != key).lookup other =
      entries.lookup other := by
  have hne : (other == key) = false := by simp [h]
  simp only [List.lookup_cons, hne]
  induction entries with
  | nil => rfl
  | cons entry rest ih =>
    obtain ⟨first, value⟩ := entry
    by_cases hk : first = key
    · simp [hk, ih, List.lookup_cons, hne]
    · simp [hk, ih, List.lookup_cons]

theorem node?_put_of_ne (fs : FileSystem) {location there : Location} (node : Node)
    (h : there ≠ location) : (fs.put location node).node? there = fs.node? there := by
  unfold node? put
  split
  · rfl
  · exact lookup_cons_filter node fs.nodes h

theorem content_fill_self (fs : FileSystem) (number : Nat) (content : Content) :
    (fs.fill number content).content number = content := by
  simp [FileSystem.content, fill]

theorem content_fill_of_ne (fs : FileSystem) {number other : Nat} (content : Content)
    (h : other ≠ number) : (fs.fill number content).content other = fs.content other :=
  congrArg (Option.getD · _) (lookup_cons_filter content fs.contents h)

theorem le_foldr_max {n : Nat} {numbers : List Nat} (h : n ∈ numbers) :
    n ≤ numbers.foldr max 0 := by
  induction numbers with
  | nil => cases h
  | cons m rest ih =>
    rcases List.mem_cons.mp h with rfl | h
    · exact Nat.le_max_left ..
    · exact Nat.le_trans (ih h) (Nat.le_max_right ..)

theorem node?_ne_fresh (fs : FileSystem) (location : Location) :
    fs.node? location ≠ some (.file fs.fresh) := by
  intro h
  rw [node?] at h
  split at h
  · cases h
  · obtain ⟨front, back, hn, -⟩ := List.lookup_eq_some_iff.mp h
    have hm : fs.fresh ∈ fs.nodes.filterMap fun (_, node) => node.number? :=
      List.mem_filterMap.mpr ⟨(location, .file fs.fresh), by simp [hn], rfl⟩
    exact absurd (le_foldr_max hm) (Nat.not_le_of_lt (Nat.lt_succ_self _))

end FileSystem

end NamedSql
