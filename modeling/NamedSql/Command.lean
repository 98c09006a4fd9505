import NamedSql.Command.Arguments
import NamedSql.Output
import NamedSql.Template.Load
import NamedSql.Text.Terminal

namespace NamedSql.Command

inductive Failure
  | unreadableDirectory (cause : SystemError)
  | noInput
  | missing (path : Path)
  | notLoaded (error : LoadError)
  | notWritten (error : OutputError)
deriving DecidableEq

def Failure.message : Failure → String
  | .unreadableDirectory cause => s!"Error reading template directory: {cause.message}"
  | .noInput => "No input SQL files provided"
  | .missing path => s!"Error: SQL file not found: {Path.display path}"
  | .notLoaded error => s!"Error: {error.message}"
  | .notWritten error => s!"Error writing output: {error.message}"

structure Job where
  /-- The name of the output files. -/
  stem : String
  manifest : Manifest
deriving DecidableEq

/-- The notice about a manifest that was made. -/
def summary (path : Path) (manifest : Manifest) : Notice :=
  .summary (Path.display path) manifest.className manifest.entries.length (manifest.count .fetch)
    (manifest.count .execute)

/-- The name of the output files for an input. -/
def outputStem (path : Path) : String :=
  ((Path.stem? path).bind textOfUtf8?).getD "queries"

/-- The job of an input whose file gave `reading`, with the notices on the way. -/
def Job.ofReading (policy : CommentPolicy) (path : Path) (reading : Reading) :
    List Notice × Except Failure Job :=
  let unusual :=
    if Path.isSql path then [] else [Notice.unusualExtension (Path.display path)]
  match reading with
  | .missing => ([], .error (.missing path))
  | reading =>
    match Template.ofReading policy path reading with
    | (notices, .error error) => (unusual ++ notices, .error (.notLoaded error))
    | (notices, .ok template) =>
      let stem := outputStem path
      let manifest := Manifest.ofTemplate template (Path.display path) stem
      (unusual ++ notices ++ [summary path manifest], .ok ⟨stem, manifest⟩)

/-- What a run leaves behind beside files. -/
structure Outcome where
  code : UInt32
  stdout : String
  stderr : String
deriving DecidableEq

/-- The inputs among the names in a directory, in the order of their bytes. -/
def sqlFiles (dir : Path) (names : List Path) : List Path :=
  ((names.map (Path.join dir)).filter Path.isSql).mergeSort Path.le

section

variable {m : Type → Type} [Monad m]

/-- The named inputs, then those in the template directory. Entries of the directory that fail are
passed over. -/
def findInputs (disk : Disk m) (a : Arguments) : m (Except Failure (List Path)) :=
  match a.templateDir with
  | none => return .ok a.inputs
  | some dir => do
    match ← disk.list dir with
    | .error cause => return .error (.unreadableDirectory cause)
    | .ok entries => return .ok (a.inputs ++ sqlFiles dir (entries.filterMap Except.toOption))

/-- Reads inputs until one fails. -/
def readJobs (disk : Disk m) (policy : CommentPolicy) :
    List Path → m (List Notice × Except Failure (List Job))
  | [] => return ([], .ok [])
  | path :: rest => do
    match Job.ofReading policy path (← disk.read path) with
    | (notices, .error failure) => return (notices, .error failure)
    | (notices, .ok job) =>
      let (more, jobs) ← readJobs disk policy rest
      return (notices ++ more, jobs.map (job :: ·))

def prepare (disk : Disk m) (a : Arguments) : m (List Notice × Except Failure (List Job)) := do
  match ← findInputs disk a with
  | .error failure => return ([], .error failure)
  | .ok [] => return ([], .error .noInput)
  | .ok inputs => readJobs disk (if a.keepComments then .keep else .strip) inputs

/-- Writes the output of jobs until one fails. -/
def writeJobs (disk : Disk m) (dir : Path) : List Job → m (List Notice × Except Failure Unit)
  | [] => return ([], .ok ())
  | job :: rest => do
    match ← Output.write disk dir job.stem job.manifest with
    | .error error => return ([], .error (.notWritten error))
    | .ok notice =>
      let (more, result) ← writeJobs disk dir rest
      return (notice :: more, result)

/-- The directory of the output when none is named. -/
def defaultOutputDir : Path := utf8Bytes "sql2bind-output"

/-- Does what the arguments ask for. The result is the text to print. -/
def perform (disk : Disk m) (a : Arguments) : m (List Notice × Except Failure String) := do
  match ← prepare disk a with
  | (notices, .error failure) => return (notices, .error failure)
  | (notices, .ok jobs) =>
    if a.dryRun then
      return (notices, .ok (String.join (jobs.map fun job => job.manifest.text ++ "\n")))
    else
      let (more, result) ← writeJobs disk (a.outputDir.getD defaultOutputDir) jobs
      return (notices ++ more, result.map fun () => "")

end

/-- The line that shows a notice, if it is shown at all. -/
def noticeLine? (verbose : Bool) (notice : Notice) : Option String :=
  let label := notice.level.label
  let level := "".pushn ' ' (5 - label.length) ++ label
  let message := spellCommands notice.message
  if verbose then some (level ++ " " ++ notice.target ++ ": " ++ message ++ "\n")
  else if notice.level = .warn then some (level ++ " " ++ message ++ "\n")
  else none

/-- The outcome of a run with the given notices and result. -/
def Outcome.ofResult (verbose : Bool) (notices : List Notice) (result : Except Failure String) :
    Outcome :=
  let lines := String.join (notices.filterMap (noticeLine? verbose))
  match result with
  | .ok text => ⟨0, text, lines⟩
  | .error failure => ⟨2, "", lines ++ failure.message ++ "\n"⟩

/-- How the command is used. -/
def usage : String :=
  "Split SQL template files into named fetch/execute statements for binding generators\n\n" ++
  "Usage: sql2bind [OPTIONS] [INPUT]...\n\n" ++
  "Options:\n" ++
  "      --template-dir <DIR>  Process all .sql files in directory\n" ++
  "      --output-dir <DIR>    Output directory [default: sql2bind-output]\n" ++
  "      --dry-run             Print manifests as JSON instead of writing files\n" ++
  "      --keep-comments       Keep comments in statement text\n" ++
  "      --verbose             Print verbose diagnostics\n" ++
  "  -h, --help                Print help\n"

def run {m : Type → Type} [Monad m] (disk : Disk m) (words : List Path) : m Outcome := do
  match Arguments.read words with
  | .help => return ⟨0, usage, ""⟩
  | .misuse => return ⟨2, "", usage⟩
  | .run a =>
    let (notices, result) ← perform disk a
    return Outcome.ofResult a.verbose notices result

end NamedSql.Command
