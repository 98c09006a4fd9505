import NamedSql.Manifest

namespace NamedSql

namespace Manifest

def Entry.toJson (entry : Entry) : Json :=
  .object
    [("name", .string entry.name),
     ("ordinal", .ofNat entry.ordinal),
     ("line", .ofNat entry.line),
     ("sql", .string entry.sql),
     ("statement_type", .string entry.mode.label),
     ("kind", .string entry.family.label),
     ("parameters", .array (entry.parameters.map .string)),
     ("has_returning", .bool entry.hasReturning)]

def toJson (manifest : Manifest) : Json :=
  .object
    [("class_name", .string manifest.className),
     ("source", .string manifest.source),
     ("statements", .array (manifest.entries.map Entry.toJson))]

def text (manifest : Manifest) : String :=
  manifest.toJson.pretty

end Manifest

def Mode.ofJson? (json : Json) : Option Mode :=
  json.toLabel?.bind Mode.ofLabel?

def Family.ofJson? (json : Json) : Option Family :=
  json.toLabel?.bind Family.ofLabel?

namespace Manifest

/-- Reads an entry. Every field is needed. -/
def Entry.ofJson? (json : Json) : Option Entry :=
  match json.toRecord? ["name", "ordinal", "line", "sql", "statement_type", "kind", "parameters",
    "has_returning"] with
  | some [some name, some ordinal, some line, some sql, some mode, some family, some parameters,
      some hasReturning] => do
    return {
      name := ← name.toString?
      ordinal := ← ordinal.toNat?
      line := ← line.toNat?
      sql := ← sql.toString?
      mode := ← Mode.ofJson? mode
      family := ← Family.ofJson? family
      parameters := ← parameters.toList? Json.toString?
      hasReturning := ← hasReturning.toBool? }
  | _ => none

/-- Reads a manifest. Every field is needed. -/
def ofJson? (json : Json) : Option Manifest :=
  match json.toRecord? ["class_name", "source", "statements"] with
  | some [some className, some source, some entries] => do
    return {
      className := ← className.toString?
      source := ← source.toString?
      entries := ← entries.toList? Entry.ofJson? }
  | _ => none

def parse? (text : String) : Option Manifest :=
  (Json.parse? text).bind ofJson?

end Manifest

/-- Reads a field that may be missing. -/
def Json.optional? {α : Type} (read : Json → Option α) : Option Json → Option (Option α)
  | none => some none
  | some json => json.toOption? read

/-- Reads a statement. Every field is needed. -/
def Statement.ofJson? (json : Json) : Option Statement :=
  match json.toRecord? ["text", "ordinal", "statement_type"] with
  | some [some text, some ordinal, some mode] => do
    return {
      text := ← text.toString?
      ordinal := ← ordinal.toNat?
      mode := ← Mode.ofJson? mode }
  | _ => none

/-- Reads an analysis. Every field is needed. -/
def Analysis.ofJson? (json : Json) : Option Analysis :=
  match json.toRecord? ["kind", "statement_type", "parameters", "has_returning"] with
  | some [some family, some mode, some parameters, some hasReturning] => do
    return {
      family := ← Family.ofJson? family
      mode := ← Mode.ofJson? mode
      parameters := ← parameters.toList? Json.toString?
      hasReturning := ← hasReturning.toBool? }
  | _ => none

/-- Reads a statement of a template. The name may be missing. -/
def NamedStatement.ofJson? (json : Json) : Option NamedStatement :=
  match json.toRecord? ["name", "line", "statement", "info"] with
  | some [name, some line, some statement, some analysis] => do
    return {
      name := ← Json.optional? Json.toString? name
      line := ← line.toNat?
      statement := ← Statement.ofJson? statement
      analysis := ← Analysis.ofJson? analysis }
  | _ => none

/-- Reads a template. The class name may be missing. -/
def Template.ofJson? (json : Json) : Option Template :=
  match json.toRecord? ["class_name", "statements"] with
  | some [className, some statements] => do
    return {
      className := ← Json.optional? Json.toString? className
      statements := ← statements.toList? NamedStatement.ofJson? }
  | _ => none

end NamedSql
