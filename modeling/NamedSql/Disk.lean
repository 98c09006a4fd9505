import NamedSql.Path

namespace NamedSql

/-- Why the system refuses an operation on files. -/
inductive SystemError
  | notFound
  | exists
  | notDirectory
  | isDirectory
  | nameTooLong
  | tooManyLinks
  /-- A path holds the character zero. -/
  | zeroInPath
  /-- A file is no UTF-8 text. -/
  | notText
  /-- Any other reason, in the words of the system. -/
  | other (text : String)
deriving DecidableEq

def SystemError.message : SystemError → String
  | .notFound => "No such file or directory (os error 2)"
  | .exists => "File exists (os error 17)"
  | .notDirectory => "Not a directory (os error 20)"
  | .isDirectory => "Is a directory (os error 21)"
  | .nameTooLong => "File name too long (os error 36)"
  | .tooManyLinks => "Too many levels of symbolic links (os error 40)"
  | .zeroInPath => "file name contained an unexpected NUL byte"
  | .notText => "stream did not contain valid UTF-8"
  | .other text => text

/-- What reading a file gives. -/
inductive Reading
  /-- There is nothing under the path that can be seen. -/
  | missing
  /-- Something is there, but it cannot be read as text. -/
  | unreadable (cause : SystemError)
  | text (content : String)
deriving DecidableEq

/-- The operations on files that a program may use. -/
structure Disk (m : Type → Type) where
  /-- The entries of a directory in any order. What reading one of them gives is its name, or why it
  fails. -/
  list : Path → m (Except SystemError (List (Except SystemError Path)))
  read : Path → m Reading
  /-- Makes a directory and those above it that are missing. -/
  makeDirectory : Path → m (Except SystemError Unit)
  /-- Writes a file, whose old content is lost. -/
  write : Path → String → m (Except SystemError Unit)

end NamedSql
