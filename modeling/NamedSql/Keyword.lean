namespace NamedSql

/-- How a binding runs a statement. -/
inductive Mode
  | fetch
  | execute
deriving DecidableEq

namespace Mode

/-- The name of the mode in manifests and reports. -/
def label : Mode → String
  | .fetch => "fetch"
  | .execute => "execute"

def ofLabel? (label : String) : Option Mode :=
  [Mode.fetch, .execute].find? fun mode => mode.label == label

/-- The mode that a word names in any ASCII case. -/
def ofWord? (word : String) : Option Mode :=
  ofLabel? (String.ofList (word.toList.map Char.toLower))

/-- What is said about a word that names no mode. -/
def unknownMessage (word : String) : String :=
  s!"Invalid statement type: {word}"

theorem ofLabel?_label (mode : Mode) : ofLabel? mode.label = some mode := by
  cases mode <;> rfl

end Mode

/-- The family of a statement, after the word that it begins with. -/
inductive Family
  | select
  | insert
  | update
  | delete
  /-- WITH. -/
  | commonTables
  | values
  /-- SHOW. -/
  | setting
  /-- EXPLAIN. -/
  | plan
  /-- DESC or DESCRIBE. -/
  | description
  | other
deriving DecidableEq

namespace Family

/-- The name of the family in manifests and reports. -/
def label : Family → String
  | .select => "select"
  | .insert => "insert"
  | .update => "update"
  | .delete => "delete"
  | .commonTables => "cte"
  | .values => "values"
  | .setting => "show"
  | .plan => "explain"
  | .description => "describe"
  | .other => "other"

def all : List Family :=
  [.select, .insert, .update, .delete, .commonTables, .values, .setting, .plan, .description,
   .other]

def ofLabel? (label : String) : Option Family :=
  all.find? fun family => family.label == label

theorem ofLabel?_label (family : Family) : ofLabel? family.label = some family := by
  cases family <;> rfl

end Family

/-- What a keyword says about the rows of its statement. -/
inductive Keyword.Rows
  | always
  /-- Rows come back if the statement has a RETURNING clause. -/
  | ifReturning
  /-- The keyword introduces common tables, and the verb after them decides. -/
  | ofMainVerb
deriving DecidableEq

/-- A word that decides what a statement does. -/
structure Keyword where
  /-- In upper case. -/
  spelling : String
  rows : Keyword.Rows
  family : Family
  /-- Whether the word can be the verb that follows common tables. -/
  followsTables : Bool
deriving DecidableEq

namespace Keyword

def all : List Keyword :=
  [⟨"SELECT", .always, .select, true⟩,
   ⟨"WITH", .ofMainVerb, .commonTables, false⟩,
   ⟨"VALUES", .always, .values, true⟩,
   ⟨"SHOW", .always, .setting, false⟩,
   ⟨"EXPLAIN", .always, .plan, false⟩,
   ⟨"DESCRIBE", .always, .description, false⟩,
   ⟨"DESC", .always, .description, false⟩,
   ⟨"INSERT", .ifReturning, .insert, true⟩,
   ⟨"UPDATE", .ifReturning, .update, true⟩,
   ⟨"DELETE", .ifReturning, .delete, true⟩,
   ⟨"MERGE", .ifReturning, .other, true⟩,
   ⟨"CREATE", .ifReturning, .other, false⟩,
   ⟨"DROP", .ifReturning, .other, false⟩,
   ⟨"ALTER", .ifReturning, .other, false⟩,
   ⟨"TRUNCATE", .ifReturning, .other, false⟩,
   ⟨"GRANT", .ifReturning, .other, false⟩,
   ⟨"REVOKE", .ifReturning, .other, false⟩]

def upper (word : List Char) : List Char :=
  word.map Char.toUpper

/-- The keyword that a word spells in any ASCII case. -/
def ofWord? (word : List Char) : Option Keyword :=
  all.find? fun keyword => keyword.spelling.toList == upper word

def isReturning (word : List Char) : Bool :=
  upper word == "RETURNING".toList

theorem mem_all_of_ofWord? {word : List Char} {keyword : Keyword}
    (h : ofWord? word = some keyword) : keyword ∈ all :=
  List.mem_of_find?_eq_some h

theorem spelling_of_ofWord? {word : List Char} {keyword : Keyword}
    (h : ofWord? word = some keyword) : keyword.spelling.toList = upper word := by
  simpa using List.find?_some h

end Keyword

/-- The family of a statement that begins with `word`. -/
def Family.ofWord (word : List Char) : Family :=
  ((Keyword.ofWord? word).map Keyword.family).getD .other

end NamedSql
