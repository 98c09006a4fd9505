import NamedSql.Manifest

namespace NamedSql

namespace Report

def title : String :=
  "# sql2bind Statement Report\n"

/-- The parameters in one cell. -/
def parametersCell (parameters : List String) : String :=
  if parameters.isEmpty then "-"
  else ", ".intercalate (parameters.map fun p => "\x60" ++ p ++ "\x60")

/-- The remark about an entry. -/
def notesCell (entry : Manifest.Entry) : String :=
  if entry.hasReturning then "RETURNING"
  else if entry.sql.isEmpty then "empty statement"
  else ""

/-- The cells of the row of an entry. -/
def cells (entry : Manifest.Entry) : List String :=
  [toString entry.ordinal, entry.name, toString entry.line, entry.mode.label, entry.family.label,
   parametersCell entry.parameters, notesCell entry]

def row (cells : List String) : String :=
  "| " ++ " | ".intercalate cells ++ " |\n"

/-- The two lines above the rows. -/
def tableHead : String :=
  row ["#", "Name", "Line", "Type", "Kind", "Parameters", "Notes"] ++
    "|---|------|------|------|------|------------|-------|\n"

/-- The line that says how many statements there are. -/
def countsLine (manifest : Manifest) : String :=
  toString manifest.entries.length ++ " statements: " ++ toString (manifest.count .fetch) ++
    " fetch, " ++ toString (manifest.count .execute) ++ " execute\n"

/-- The table of a manifest. There is none without entries. -/
def table (manifest : Manifest) : String :=
  if manifest.entries.isEmpty then ""
  else "\n" ++ tableHead ++ String.join (manifest.entries.map fun entry => row (cells entry))

def manifestSection (manifest : Manifest) : String :=
  "\n## " ++ manifest.className ++ " (\x60" ++ manifest.source ++ "\x60)\n\n" ++
    countsLine manifest ++ table manifest

end Report

/-- The report on the manifests, one section for each. -/
def report (manifests : List Manifest) : String :=
  Report.title ++ String.join (manifests.map Report.manifestSection)

end NamedSql
