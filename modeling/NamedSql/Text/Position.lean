namespace NamedSql

/-- The number of bytes that a text takes in UTF-8. -/
def byteLength : List Char → Nat
  | [] => 0
  | c :: cs => c.utf8Size + byteLength cs

@[simp] theorem byteLength_nil : byteLength [] = 0 := rfl

@[simp] theorem byteLength_cons (c : Char) (cs : List Char) :
    byteLength (c :: cs) = c.utf8Size + byteLength cs := rfl

@[simp] theorem byteLength_append (as bs : List Char) :
    byteLength (as ++ bs) = byteLength as + byteLength bs := by
  induction as with
  | nil => simp
  | cons c cs ih => simp [ih, Nat.add_assoc]

theorem byteLength_pos {cs : List Char} (h : cs ≠ []) : 0 < byteLength cs := by
  cases cs with
  | nil => exact absurd rfl h
  | cons c cs => have := c.utf8Size_pos; simp only [byteLength_cons]; omega

@[simp] theorem byteLength_replicate_space (n : Nat) : byteLength (List.replicate n ' ') = n := by
  induction n with
  | zero => rfl
  | succ n ih => simp [List.replicate_succ, ih, show ' '.utf8Size = 1 from rfl]; omega

/-- Cuts a text before the character at byte `offset`. There is no cut inside a character or past
the end. -/
def cutAtByte? (offset : Nat) (text : List Char) : Option (List Char × List Char) :=
  match offset, text with
  | 0, rest => some ([], rest)
  | _ + 1, [] => none
  | n + 1, c :: rest =>
    if c.utf8Size ≤ n + 1 then
      (cutAtByte? (n + 1 - c.utf8Size) rest).map fun (before, after) => (c :: before, after)
    else none

/-- A place in a text: the bytes before it, and the number of its line, counted from one. -/
structure Position where
  byte : Nat
  line : Nat
deriving DecidableEq

namespace Position

/-- The beginning of a text. -/
def origin : Position := ⟨0, 1⟩

/-- The place reached by reading `cs` from `p`: each newline begins a line. -/
def after (p : Position) (cs : List Char) : Position :=
  ⟨p.byte + byteLength cs, p.line + cs.count '\n'⟩

@[simp] theorem after_nil (p : Position) : p.after [] = p := rfl

theorem after_append (p : Position) (as bs : List Char) :
    p.after (as ++ bs) = (p.after as).after bs := by
  simp [after, Nat.add_assoc]

@[simp] theorem byte_after (p : Position) (cs : List Char) :
    (p.after cs).byte = p.byte + byteLength cs := rfl

@[simp] theorem line_after (p : Position) (cs : List Char) :
    (p.after cs).line = p.line + cs.count '\n' := rfl

end Position

end NamedSql
