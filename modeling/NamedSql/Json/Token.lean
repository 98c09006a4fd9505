import NamedSql.Json.Text

namespace NamedSql.Json

inductive Token
  | openBrace
  | closeBrace
  | openBracket
  | closeBracket
  | comma
  | colon
  | null
  | bool (value : Bool)
  /-- A number as it is written. -/
  | number (literal : List Char)
  | string (value : List Char)
deriving DecidableEq

namespace Token

/-- The blanks between tokens. -/
def isSpace (c : Char) : Bool :=
  c == ' ' || c == '\n' || c == '\t' || c == '\r'

/-- The characters that numbers are made of. -/
def isNumberChar (c : Char) : Bool :=
  c.isDigit || c == '-' || c == '+' || c == '.' || c == 'e' || c == 'E'

/-- A fraction: nothing, or a point and digits. The rest follows it. -/
def afterFraction? : List Char → Option (List Char)
  | '.' :: cs => if cs.head?.any Char.isDigit then some (cs.dropWhile Char.isDigit) else none
  | cs => some cs

/-- An exponent: nothing, or the letter, a sign or none, and digits. It ends the number. -/
def isExponent : List Char → Bool
  | [] => true
  | c :: cs =>
    let digits := match cs with
      | '+' :: ds => ds
      | '-' :: ds => ds
      | ds => ds
    (c == 'e' || c == 'E') && !digits.isEmpty && digits.all Char.isDigit

/-- A whole part: zero, or digits that do not begin with zero. The rest follows it. -/
def afterWhole? : List Char → Option (List Char)
  | '0' :: cs => some cs
  | c :: cs => if c.isDigit then some (cs.dropWhile Char.isDigit) else none
  | [] => none

/-- Whether a text is a number as JSON writes it. -/
def isNumber (literal : List Char) : Bool :=
  let unsigned := match literal with
    | '-' :: cs => cs
    | cs => cs
  ((afterWhole? unsigned).bind afterFraction?).any isExponent

/-- The token that a word of letters is. -/
def ofWord? (word : List Char) : Option Token :=
  if word = "null".toList then some .null
  else if word = "true".toList then some (.bool true)
  else if word = "false".toList then some (.bool false)
  else none

/-- The token that one character is. -/
def ofChar? (c : Char) : Option Token :=
  if c = '\x7b' then some .openBrace
  else if c = '\x7d' then some .closeBrace
  else if c = '[' then some .openBracket
  else if c = ']' then some .closeBracket
  else if c = ',' then some .comma
  else if c = ':' then some .colon
  else none

/-- The token that the text `c :: cs` begins with, and the rest. -/
def next? (c : Char) (cs : List Char) : Option (Token × List Char) :=
  if c = '"' then (readString? cs).map fun (value, rest) => (.string value, rest)
  else if c.isAlpha then
    (ofWord? (c :: cs.takeWhile Char.isAlpha)).map fun token => (token, cs.dropWhile Char.isAlpha)
  else if isNumberChar c then
    let literal := c :: cs.takeWhile isNumberChar
    if isNumber literal then some (.number literal, cs.dropWhile isNumberChar) else none
  else (ofChar? c).map fun token => (token, cs)

theorem length_le_of_next? {c : Char} {cs rest : List Char} {token : Token}
    (h : next? c cs = some (token, rest)) : rest.length ≤ cs.length := by
  unfold next? at h
  split at h
  · obtain ⟨⟨s, r⟩, hr, hs⟩ := Option.map_eq_some_iff.mp h
    obtain ⟨-, rfl⟩ := Prod.mk.inj hs
    exact Nat.le_of_lt (length_lt_of_readString? hr)
  · split at h
    · obtain ⟨t, -, ht⟩ := Option.map_eq_some_iff.mp h
      obtain ⟨-, rfl⟩ := Prod.mk.inj ht
      exact (List.dropWhile_sublist _).length_le
    · split at h
      · simp only [Option.ite_none_right_eq_some, Option.some.injEq, Prod.mk.injEq] at h
        rw [← h.2.2]
        exact (List.dropWhile_sublist _).length_le
      · obtain ⟨t, -, ht⟩ := Option.map_eq_some_iff.mp h
        obtain ⟨-, rfl⟩ := Prod.mk.inj ht
        exact Nat.le_refl _

/-- The tokens of a text, if it falls into tokens. -/
def ofText? (text : List Char) : Option (List Token) :=
  match text with
  | [] => some []
  | c :: cs =>
    if isSpace c then ofText? cs
    else
      match h : next? c cs with
      | none => none
      | some (token, rest) =>
        have := length_le_of_next? h
        (ofText? rest).map (token :: ·)
termination_by text.length

/-- The token as it is written. -/
def text : Token → List Char
  | .openBrace => ['\x7b']
  | .closeBrace => ['\x7d']
  | .openBracket => ['[']
  | .closeBracket => [']']
  | .comma => [',']
  | .colon => [':']
  | .null => "null".toList
  | .bool true => "true".toList
  | .bool false => "false".toList
  | .number literal => literal
  | .string value => '"' :: (value.flatMap escape ++ ['"'])

/-- A new line, indented by two spaces for each open bracket. -/
def newLine (depth : Nat) : List Char :=
  '\n' :: List.replicate (2 * depth) ' '

def isOpening : Token → Bool
  | .openBrace | .openBracket => true
  | _ => false

def isClosing : Token → Bool
  | .closeBrace | .closeBracket => true
  | _ => false

/-- Lays tokens out with one item on each line, when `depth` brackets are open. An empty list or
object stays on its line. -/
def layout (depth : Nat) : List Token → List Char
  | [] => []
  | token :: rest =>
    if token.isOpening then
      match rest with
      | next :: after =>
        if next.isClosing then token.text ++ next.text ++ layout depth after
        else token.text ++ newLine (depth + 1) ++ layout (depth + 1) (next :: after)
      | [] => token.text
    else if token.isClosing then newLine (depth - 1) ++ token.text ++ layout (depth - 1) rest
    else if token = .comma then token.text ++ newLine depth ++ layout depth rest
    else if token = .colon then token.text ++ ' ' :: layout depth rest
    else token.text ++ layout depth rest

end Token

end NamedSql.Json
