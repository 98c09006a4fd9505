import NamedSql.Json
import NamedSql.Naming
import NamedSql.Template

namespace NamedSql

structure Manifest.Entry where
  name : String
  ordinal : Nat
  /-- The number of the line on which the statement begins. -/
  line : Nat
  sql : String
  mode : Mode
  family : Family
  parameters : List String
  hasReturning : Bool
deriving DecidableEq

/-- The statements of one template for a binding generator. -/
structure Manifest where
  className : String
  /-- Where the template came from. -/
  source : String
  entries : List Manifest.Entry
deriving DecidableEq

namespace Manifest

/-- The variants of a name, in the order in which they are tried: the name, then the name with the
suffixes 2, 3 and so on. -/
def variant (base : String) : Nat → String
  | 0 => base
  | n + 1 => base ++ "_" ++ toString (n + 2)

/-- The first variant of a name that is not taken. One more variant than there are taken names is
enough. The variants are numbered without bound, where a search that numbers them in 32 bits gives
the same name as long as fewer than `2 ^ 31 - 1` names are taken (`search_iff`). -/
def freeName (taken : List String) (base : String) : String :=
  ((List.range (taken.length + 1)).find? fun n => !taken.contains (variant base n)).elim base
    (variant base)

/-- The entry for a statement under the given name. -/
def Entry.ofStatement (name : String) (s : NamedStatement) : Entry where
  name := name
  ordinal := s.statement.ordinal
  line := s.line
  sql := s.statement.text
  mode := s.statement.mode
  family := s.analysis.family
  parameters := s.analysis.parameters
  hasReturning := s.analysis.hasReturning

/-- The entries for the statements, when the names in `taken` are not free. -/
def entriesOf (taken : List String) : List NamedStatement → List Entry
  | [] => []
  | s :: rest =>
    match s.name with
    | some name => .ofStatement name s :: entriesOf taken rest
    | none =>
      let name := freeName taken (fallbackName s.statement.ordinal)
      .ofStatement name s :: entriesOf (name :: taken) rest

/-- The manifest of a template. The stem of its file gives the class name if it has none itself. -/
def ofTemplate (template : Template) (source stem : String) : Manifest where
  className := template.className.getD (NamedSql.className stem)
  source := source
  entries := entriesOf (template.statements.filterMap NamedStatement.name) template.statements

def count (manifest : Manifest) (mode : Mode) : Nat :=
  manifest.entries.countP fun entry => entry.mode == mode

@[simp] theorem length_entriesOf (taken : List String) (statements : List NamedStatement) :
    (entriesOf taken statements).length = statements.length := by
  induction statements generalizing taken with
  | nil => rfl
  | cons s rest ih =>
    simp only [entriesOf]
    split <;> simp [ih]

@[simp] theorem length_entries_ofTemplate (template : Template) (source stem : String) :
    (ofTemplate template source stem).entries.length = template.statements.length := by
  simp [ofTemplate]

theorem count_add_count (manifest : Manifest) :
    manifest.count .fetch + manifest.count .execute = manifest.entries.length := by
  obtain ⟨_, _, entries⟩ := manifest
  simp only [count]
  induction entries with
  | nil => rfl
  | cons e es ih =>
    cases h : e.mode <;> simp [h] at ih ⊢ <;> omega

end Manifest

end NamedSql
