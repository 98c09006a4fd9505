import NamedSql.Identifier
import NamedSql.Text.Position

namespace NamedSql

inductive Region.Kind
  /-- A string between single quotes. -/
  | singleQuoted
  /-- A name between double quotes. -/
  | doubleQuoted
  /-- A comment from two hyphens to the end of the line. -/
  | lineComment
  /-- A comment between a slash with a star and a star with a slash. It does not nest. -/
  | blockComment
  /-- A block between two equal delimiters, each a tag between dollar signs. -/
  | dollarQuoted (tag : List Char)
deriving DecidableEq

/-- A region as it stands in the script, with its delimiters. -/
structure Region where
  kind : Region.Kind
  text : List Char
  /-- Whether the closing delimiter is there. -/
  terminated : Bool
deriving DecidableEq

namespace Region

/-- Splits a text just after the first place where `needle` stands. -/
def through? (needle : List Char) : List Char → Option (List Char × List Char)
  | [] => if needle.isEmpty then some ([], []) else none
  | c :: cs =>
    if needle.isPrefixOf (c :: cs) then some (needle, (c :: cs).drop needle.length)
    else (through? needle cs).map fun (before, rest) => (c :: before, rest)

/-- Splits a text just after its first quote, where two quotes in a row count as content. -/
def throughQuote? (quote : Char) : List Char → Option (List Char × List Char)
  | [] => none
  | [c] => if c = quote then some ([c], []) else none
  | c :: d :: cs =>
    if c ≠ quote then
      (throughQuote? quote (d :: cs)).map fun (before, rest) => (c :: before, rest)
    else if d ≠ quote then some ([c], d :: cs)
    else (throughQuote? quote cs).map fun (before, rest) => (c :: d :: before, rest)

/-- The tag that ends at the first dollar sign of the text: empty, or an identifier. -/
def tag? (text : List Char) : Option (List Char) :=
  let tag := text.takeWhile isIdentifierRest
  match text.dropWhile isIdentifierRest with
  | '$' :: _ => if tag.isEmpty || isIdentifier tag then some tag else none
  | _ => none

namespace Kind

/-- Whether regions of this kind carry no meaning. -/
def isComment : Kind → Bool
  | .lineComment | .blockComment => true
  | _ => false

/-- The delimiter that a region of this kind begins with. -/
def opening : Kind → List Char
  | .singleQuoted => ['\'']
  | .doubleQuoted => ['"']
  | .lineComment => ['-', '-']
  | .blockComment => ['/', '*']
  | .dollarQuoted tag => '$' :: (tag ++ ['$'])

/-- The kind of region that begins with the text, when `before` is the character in front of it.
A dollar sign inside a name opens nothing. -/
def opens? (before : Option Char) : List Char → Option Kind
  | '-' :: '-' :: _ => some .lineComment
  | '/' :: '*' :: _ => some .blockComment
  | '\'' :: _ => some .singleQuoted
  | '"' :: _ => some .doubleQuoted
  | '$' :: rest => if before.any isNameChar then none else (tag? rest).map .dollarQuoted
  | _ => none

/-- Splits what follows the opening delimiter just after the closing one. A line comment is closed
by the end of its line, which is not part of it, or by the end of the text. -/
def close? : Kind → List Char → Option (List Char × List Char)
  | .singleQuoted, body => throughQuote? '\'' body
  | .doubleQuoted, body => throughQuote? '"' body
  | .lineComment, body => some (body.takeWhile (· != '\n'), body.dropWhile (· != '\n'))
  | .blockComment, body => through? ['*', '/'] body
  | .dollarQuoted tag, body => through? ('$' :: (tag ++ ['$'])) body

end Kind

/-- The region of the given kind whose body and all that follows is `body`, and what follows it. -/
def ofBody (kind : Kind) (body : List Char) : Region × List Char :=
  match kind.close? body with
  | some (inner, rest) => (⟨kind, kind.opening ++ inner, true⟩, rest)
  | none => (⟨kind, kind.opening ++ body, false⟩, [])

/-- The region that begins with the text, and the rest of the text. `before` is the character in
front of the text. -/
def scan? (before : Option Char) (text : List Char) : Option (Region × List Char) :=
  (Kind.opens? before text).map fun kind => ofBody kind (text.drop kind.opening.length)

/-- Whether the byte `offset` lies strictly inside the region when that begins at byte `start`. -/
def encloses (region : Region) (start offset : Nat) : Bool :=
  start < offset && offset < start + byteLength region.text

/-- The region that begins at byte `start` of a text, if one does. -/
def at? (text : List Char) (start : Nat) : Option Region :=
  (cutAtByte? start text).bind fun (before, rest) => (scan? before.getLast? rest).map (·.1)

theorem append_of_through? {needle text before rest : List Char}
    (h : through? needle text = some (before, rest)) : before ++ rest = text := by
  induction text generalizing before rest with
  | nil =>
    simp only [through?, Option.ite_none_right_eq_some, Option.some.injEq, Prod.mk.injEq] at h
    simp [← h.2.1, ← h.2.2]
  | cons c cs ih =>
    simp only [through?] at h
    split at h
    · rename_i hp
      obtain ⟨tail, htail⟩ := List.isPrefixOf_iff_prefix.mp hp
      simp only [Option.some.injEq, Prod.mk.injEq] at h
      rw [← h.1, ← h.2, ← htail, List.drop_left]
    · obtain ⟨⟨b, r⟩, hb, hbr⟩ := Option.map_eq_some_iff.mp h
      obtain ⟨rfl, rfl⟩ := Prod.mk.inj hbr
      rw [List.cons_append, ih hb]

theorem append_of_throughQuote? {quote : Char} {text before rest : List Char}
    (h : throughQuote? quote text = some (before, rest)) : before ++ rest = text := by
  fun_induction throughQuote? quote text generalizing before rest with
  | case1 => simp at h
  | case2 => obtain ⟨rfl, rfl⟩ := Prod.mk.inj (Option.some.inj h); rfl
  | case3 => simp at h
  | case4 c d cs hc ih =>
    obtain ⟨⟨b, r⟩, hb, hbr⟩ := Option.map_eq_some_iff.mp h
    obtain ⟨rfl, rfl⟩ := Prod.mk.inj hbr
    rw [List.cons_append, ih hb]
  | case5 c d cs hc hd => obtain ⟨rfl, rfl⟩ := Prod.mk.inj (Option.some.inj h); rfl
  | case6 c d cs hc hd ih =>
    obtain ⟨⟨b, r⟩, hb, hbr⟩ := Option.map_eq_some_iff.mp h
    obtain ⟨rfl, rfl⟩ := Prod.mk.inj hbr
    rw [List.cons_append, List.cons_append, ih hb]

theorem Kind.append_of_close? {kind : Kind} {body inner rest : List Char}
    (h : kind.close? body = some (inner, rest)) : inner ++ rest = body := by
  cases kind with
  | singleQuoted => exact append_of_throughQuote? h
  | doubleQuoted => exact append_of_throughQuote? h
  | lineComment =>
    simp only [Kind.close?, Option.some.injEq, Prod.mk.injEq] at h
    rw [← h.1, ← h.2, List.takeWhile_append_dropWhile]
  | blockComment => exact append_of_through? h
  | dollarQuoted tag => exact append_of_through? h

theorem tag?_eq_some {text tag : List Char} (h : tag? text = some tag) :
    ∃ rest, text = tag ++ '$' :: rest := by
  simp only [tag?] at h
  split at h
  · rename_i rest hr
    simp only [Option.ite_none_right_eq_some, Option.some.injEq] at h
    exact ⟨rest, by rw [← h.2, ← hr, List.takeWhile_append_dropWhile]⟩
  · simp at h

theorem Kind.opening_prefix_of_opens? {before : Option Char} {text : List Char} {kind : Kind}
    (h : opens? before text = some kind) : ∃ body, text = kind.opening ++ body := by
  unfold opens? at h
  split at h
  case h_5 rest =>
    split at h
    · simp at h
    · obtain ⟨tag, ht, rfl⟩ := Option.map_eq_some_iff.mp h
      obtain ⟨body, rfl⟩ := tag?_eq_some ht
      exact ⟨body, by simp [opening]⟩
  case h_6 => simp at h
  all_goals cases h; exact ⟨_, rfl⟩

theorem Kind.opening_ne_nil (kind : Kind) : kind.opening ≠ [] := by
  cases kind <;> simp [opening]

theorem ofBody_append (kind : Kind) (body : List Char) :
    (ofBody kind body).1.text ++ (ofBody kind body).2 = kind.opening ++ body := by
  unfold ofBody
  split
  · rename_i inner rest h
    simp [← Kind.append_of_close? h]
  · simp

@[simp] theorem ofBody_kind (kind : Kind) (body : List Char) :
    (ofBody kind body).1.kind = kind := by
  unfold ofBody; split <;> rfl

theorem ofBody_text_ne_nil (kind : Kind) (body : List Char) : (ofBody kind body).1.text ≠ [] := by
  unfold ofBody
  split <;> simp [kind.opening_ne_nil]

/-- A region and the rest are the text that they were scanned from. -/
theorem append_of_scan? {before : Option Char} {text rest : List Char} {region : Region}
    (h : scan? before text = some (region, rest)) : region.text ++ rest = text := by
  obtain ⟨kind, hk, hs⟩ := Option.map_eq_some_iff.mp h
  obtain ⟨body, rfl⟩ := Kind.opening_prefix_of_opens? hk
  rw [List.drop_left] at hs
  rw [← ofBody_append kind body, hs]

theorem text_ne_nil_of_scan? {before : Option Char} {text rest : List Char} {region : Region}
    (h : scan? before text = some (region, rest)) : region.text ≠ [] := by
  obtain ⟨kind, -, hs⟩ := Option.map_eq_some_iff.mp h
  have := ofBody_text_ne_nil kind (text.drop kind.opening.length)
  rwa [hs] at this

theorem length_rest_lt_of_scan? {before : Option Char} {text rest : List Char} {region : Region}
    (h : scan? before text = some (region, rest)) : rest.length < text.length := by
  have := List.length_pos_iff.mpr (text_ne_nil_of_scan? h)
  rw [← append_of_scan? h, List.length_append]
  omega

end Region

end NamedSql
