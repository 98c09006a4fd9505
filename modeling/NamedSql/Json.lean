import NamedSql.Json.Token

namespace NamedSql

/-- A JSON value. Numbers are kept as they are written. -/
inductive Json
  | null
  | bool (value : Bool)
  | number (literal : List Char)
  | string (value : String)
  | array (items : List Json)
  | object (fields : List (String × Json))

namespace Json

mutual

/-- The tokens that a value is written with. -/
def tokens : Json → List Token
  | .null => [.null]
  | .bool value => [.bool value]
  | .number literal => [.number literal]
  | .string value => [.string value.toList]
  | .array items => .openBracket :: (tokensOfItems items ++ [.closeBracket])
  | .object fields => .openBrace :: (tokensOfFields fields ++ [.closeBrace])

/-- The tokens between the brackets of an array. -/
def tokensOfItems : List Json → List Token
  | [] => []
  | [item] => item.tokens
  | item :: next :: rest => item.tokens ++ .comma :: tokensOfItems (next :: rest)

/-- The tokens between the braces of an object. -/
def tokensOfFields : List (String × Json) → List Token
  | [] => []
  | [(key, item)] => .string key.toList :: .colon :: item.tokens
  | (key, item) :: next :: rest =>
    .string key.toList :: .colon :: (item.tokens ++ .comma :: tokensOfFields (next :: rest))

end

/-- The text of a value, one item on each line. -/
def pretty (value : Json) : String :=
  String.ofList (Token.layout 0 value.tokens)

mutual

/-- Reads the value that the tokens begin with, and what follows it. A list or an object costs two
units of `fuel` and has two brackets, and each item after the first costs one and has a comma. So as
many units as tokens, and one more, are enough. -/
def readValue : Nat → List Token → Option (Json × List Token)
  | 0, _ => none
  | fuel + 1, tokens =>
    match tokens with
    | .null :: rest => some (.null, rest)
    | .bool value :: rest => some (.bool value, rest)
    | .number literal :: rest => some (.number literal, rest)
    | .string value :: rest => some (.string (String.ofList value), rest)
    | .openBracket :: .closeBracket :: rest => some (.array [], rest)
    | .openBracket :: rest => (readItems fuel rest).map fun (items, rest) => (.array items, rest)
    | .openBrace :: .closeBrace :: rest => some (.object [], rest)
    | .openBrace :: rest => (readFields fuel rest).map fun (fields, rest) => (.object fields, rest)
    | _ => none

/-- Reads one item or more and the bracket that ends them. -/
def readItems : Nat → List Token → Option (List Json × List Token)
  | 0, _ => none
  | fuel + 1, tokens =>
    match readValue fuel tokens with
    | some (item, .closeBracket :: rest) => some ([item], rest)
    | some (item, .comma :: rest) =>
      (readItems fuel rest).map fun (items, rest) => (item :: items, rest)
    | _ => none

/-- Reads one field or more and the brace that ends them. -/
def readFields : Nat → List Token → Option (List (String × Json) × List Token)
  | 0, _ => none
  | fuel + 1, tokens =>
    match tokens with
    | .string key :: .colon :: rest =>
      match readValue fuel rest with
      | some (item, .closeBrace :: rest) => some ([(String.ofList key, item)], rest)
      | some (item, .comma :: rest) =>
        (readFields fuel rest).map fun (fields, rest) => ((String.ofList key, item) :: fields, rest)
      | _ => none
    | _ => none

end

/-- The value that the tokens spell, with nothing left over. -/
def ofTokens? (tokens : List Token) : Option Json :=
  match readValue (tokens.length + 1) tokens with
  | some (value, []) => some value
  | _ => none

def parse? (text : String) : Option Json :=
  (Token.ofText? text.toList).bind ofTokens?

/-- The largest number that fits 64 bits. -/
def maxWord : Nat := 0xFFFFFFFFFFFFFFFF

/-- A number that is written with digits alone and fits 64 bits. -/
def toNat? : Json → Option Nat
  | .number literal =>
    if literal.all Char.isDigit then
      let n := Nat.ofDigitChars 10 literal 0
      if n ≤ maxWord then some n else none
    else none
  | _ => none

def toBool? : Json → Option Bool
  | .bool value => some value
  | _ => none

def toString? : Json → Option String
  | .string value => some value
  | _ => none

def toOption? {α : Type} (read : Json → Option α) : Json → Option (Option α)
  | .null => some none
  | value => (read value).map some

def toList? {α : Type} (read : Json → Option α) : Json → Option (List α)
  | .array items => items.mapM read
  | _ => none

/-- A label, or an object that has the label for its only key and null for its value. -/
def toLabel? : Json → Option String
  | .string label => some label
  | .object [(label, .null)] => some label
  | _ => none

/-- Whether no two fields have the key. -/
def isSingle (fields : List (String × Json)) (key : String) : Bool :=
  fields.countP (fun field => field.1 == key) ≤ 1

/-- The values under the given keys of an object, none of which may be there twice, or the items of
an array of as many items. Other keys are ignored. -/
def toRecord? (keys : List String) : Json → Option (List (Option Json))
  | .object fields =>
    if keys.all (isSingle fields) then some (keys.map fun key => fields.lookup key) else none
  | .array items => if items.length = keys.length then some (items.map some) else none
  | _ => none

/-- A number as JSON writes it. -/
def ofNat (n : Nat) : Json :=
  .number (Nat.toDigits 10 n)

theorem toNat?_ofNat {n : Nat} (h : n ≤ maxWord) : (ofNat n).toNat? = some n := by
  have hd : (Nat.toDigits 10 n).all Char.isDigit = true := by
    simp only [List.all_eq_true]
    exact fun c hc => Nat.isDigit_of_mem_toDigits (by decide) (by decide) hc
  simp [ofNat, toNat?, hd, h]

end Json

end NamedSql
