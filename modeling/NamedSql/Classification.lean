import NamedSql.Comment
import NamedSql.Keyword
import NamedSql.Parameter
import NamedSql.Token

namespace NamedSql

/-- The first word behind the opening parentheses, and the tokens after it. -/
def leadingWord? (tokens : List Token) : Option (List Char × List Token) :=
  match tokens.dropWhile (· == .openParen) with
  | .word word :: rest => some (word, rest)
  | _ => none

/-- The first verb that can follow common tables and stands outside parentheses, and the tokens
after it. `depth` parentheses are open. A closing parenthesis too many is ignored. -/
def verbAfterTables? (depth : Nat) : List Token → Option (Keyword × List Token)
  | [] => none
  | .openParen :: rest => verbAfterTables? (depth + 1) rest
  | .closeParen :: rest => verbAfterTables? (depth - 1) rest
  | .other :: rest => verbAfterTables? depth rest
  | .word word :: rest =>
    match (Keyword.ofWord? word).filter fun keyword => depth == 0 && keyword.followsTables with
    | some keyword => some (keyword, rest)
    | none => verbAfterTables? depth rest

/-- The keyword that decides the statement, and the tokens after it. -/
def mainVerb? (tokens : List Token) : Option (Keyword × List Token) := do
  let (word, rest) ← leadingWord? tokens
  let keyword ← Keyword.ofWord? word
  if keyword.rows = .ofMainVerb then verbAfterTables? 0 rest else some (keyword, rest)

/-- Whether RETURNING stands where no more parentheses were opened than closed. `depth` is the
number of those opened less the number of those closed. -/
def hasReturningAt (depth : Int) : List Token → Bool
  | [] => false
  | .openParen :: rest => hasReturningAt (depth + 1) rest
  | .closeParen :: rest => hasReturningAt (depth - 1) rest
  | .other :: rest => hasReturningAt depth rest
  | .word word :: rest => (depth ≤ 0 && Keyword.isReturning word) || hasReturningAt depth rest

/-- Whether the main verb has a RETURNING clause. -/
def hasReturningOfTokens (tokens : List Token) : Bool :=
  (mainVerb? tokens).any fun (_, rest) => hasReturningAt 0 rest

/-- The mode of the statement with these tokens. Without a verb it is run for its effect. -/
def Mode.ofTokens (tokens : List Token) : Mode :=
  match mainVerb? tokens with
  | none => .execute
  | some (keyword, rest) =>
    match keyword.rows with
    | .always => .fetch
    | .ifReturning => if hasReturningAt 0 rest then .fetch else .execute
    | .ofMainVerb => .execute

/-- The tokens of a statement, its comments removed. -/
def statementTokens (sql : List Char) : List Token :=
  Token.ofText (stripComments sql)

def Mode.ofStatement (sql : List Char) : Mode :=
  Mode.ofTokens (statementTokens sql)

/-- The first word of a statement, in upper case. -/
def leadingWordOfStatement? (sql : List Char) : Option (List Char) :=
  (leadingWord? (statementTokens sql)).map fun (word, _) => Keyword.upper word

/-- What a binding generator needs to know about a statement. -/
structure Analysis where
  family : Family
  mode : Mode
  /-- Each once, in the order of their first appearance. -/
  parameters : List String
  /-- Whether the main verb has a RETURNING clause. -/
  hasReturning : Bool
deriving DecidableEq

def Analysis.ofStatement (sql : String) : Analysis where
  family := ((leadingWordOfStatement? sql.toList).map Family.ofWord).getD .other
  mode := Mode.ofStatement sql.toList
  parameters := NamedSql.parameters sql
  hasReturning := hasReturningOfTokens (statementTokens sql.toList)

/-- Whether the main verb of a statement has a RETURNING clause. -/
def hasReturning (sql : String) : Bool :=
  hasReturningOfTokens (statementTokens sql.toList)

def modeOf (sql : String) : Mode :=
  Mode.ofStatement sql.toList

/-- The first word of a statement behind opening parentheses, in upper case. -/
def leadingWord (sql : String) : Option String :=
  (leadingWordOfStatement? sql.toList).map String.ofList

end NamedSql
