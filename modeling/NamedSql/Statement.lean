import NamedSql.Classification
import NamedSql.Excerpt

namespace NamedSql

/-- A statement of a script. -/
structure Statement where
  /-- Without the semicolon that ends it. -/
  text : String
  /-- The number of statements before it. -/
  ordinal : Nat
  mode : Mode
deriving DecidableEq

namespace Statement

/-- The statement with the given source text and number. -/
def ofSource (policy : CommentPolicy) (ordinal : Nat) (sql : List Char) : Statement :=
  let text := policy.apply sql
  ⟨String.ofList text, ordinal, Mode.ofStatement text⟩

/-- The statements of a script. One that is only a comment counts, with an empty text when comments
are stripped. -/
def ofScript (policy : CommentPolicy) (script : String) : List Statement :=
  (Excerpt.ofScript .origin script.toList).zipIdx.map fun (e, i) => ofSource policy i e.chars

end Statement

end NamedSql
