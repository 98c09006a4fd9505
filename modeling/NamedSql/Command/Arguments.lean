import NamedSql.Path

namespace NamedSql.Command

structure Arguments where
  /-- The template files that are named. -/
  inputs : List Path
  /-- A directory whose SQL files are inputs too. -/
  templateDir : Option Path
  outputDir : Option Path
  /-- Print the manifests and write nothing. -/
  dryRun : Bool
  keepComments : Bool
  /-- Show all notices and where they come from. -/
  verbose : Bool
deriving DecidableEq

namespace Arguments

def empty : Arguments := ⟨[], none, none, false, false, false⟩

inductive Request
  | run (arguments : Arguments)
  | help
  | misuse
deriving DecidableEq

/-- The arguments with one more input. No input is the empty text. -/
def addInput (a : Arguments) (input : Path) : Option Arguments :=
  if input.isEmpty then none else some { a with inputs := a.inputs ++ [input] }

/-- The arguments with a flag set that is not set yet. -/
def setFlag (a : Arguments) (flag : Path) : Option Arguments :=
  if flag = utf8Bytes "--dry-run" then
    if a.dryRun then none else some { a with dryRun := true }
  else if flag = utf8Bytes "--keep-comments" then
    if a.keepComments then none else some { a with keepComments := true }
  else if flag = utf8Bytes "--verbose" then
    if a.verbose then none else some { a with verbose := true }
  else none

/-- Whether a word names an option that takes a value. -/
def isOption (word : Path) : Bool :=
  word == utf8Bytes "--template-dir" || word == utf8Bytes "--output-dir"

/-- The arguments with an option set that is not set yet. -/
def setOption (a : Arguments) (option value : Path) : Option Arguments :=
  if value.isEmpty then none
  else if option = utf8Bytes "--template-dir" then
    if a.templateDir.isSome then none else some { a with templateDir := some value }
  else if option = utf8Bytes "--output-dir" then
    if a.outputDir.isSome then none else some { a with outputDir := some value }
  else none

def hyphen : UInt8 := 0x2D

def equalsSign : UInt8 := 0x3D

/-- Whether an argument cannot be an input or a value where options are looked for. -/
def looksLikeOption : Path → Bool
  | b :: _ :: _ => b == hyphen
  | _ => false

/-- The part of a word in front of its first equals sign, and the part behind it. -/
def cutAtEquals (word : Path) : Path × Option Path :=
  match word.dropWhile (· != equalsSign) with
  | [] => (word, none)
  | _ :: value => (word.takeWhile (· != equalsSign), some value)

/-- Adds inputs only. -/
def readInputs (a : Arguments) : List Path → Request
  | [] => .run a
  | input :: rest =>
    match a.addInput input with
    | some a => readInputs a rest
    | none => .misuse

/-- Reads arguments one after the other on top of those in `a`. Three flags and two options with a
value may stand anywhere among the inputs, each once. Two hyphens end them, and all that follows is
input. The first argument that is wrong or asks for help decides. -/
def readFrom (a : Arguments) : List Path → Request
  | [] => .run a
  | word :: rest =>
    if word = utf8Bytes "--" then readInputs a rest
    else if !looksLikeOption word then
      match a.addInput word with
      | some a => readFrom a rest
      | none => .misuse
    else if word = utf8Bytes "--help" || word.take 2 == utf8Bytes "-h" then .help
    else
      match cutAtEquals word with
      | (option, some value) =>
        match a.setOption option value with
        | some a => readFrom a rest
        | none => .misuse
      | (option, none) =>
        if isOption option then
          match rest with
          | value :: rest =>
            if looksLikeOption value then .misuse
            else
              match a.setOption option value with
              | some a => readFrom a rest
              | none => .misuse
          | [] => .misuse
        else
          match a.setFlag option with
          | some a => readFrom a rest
          | none => .misuse

/-- Reads the arguments of the command. Some input must be named. -/
def read (words : List Path) : Request :=
  match readFrom empty words with
  | .run a => if a.inputs.isEmpty && a.templateDir.isNone then .misuse else .run a
  | request => request

end Arguments

end NamedSql.Command
