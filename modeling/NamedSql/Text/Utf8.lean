namespace NamedSql

/-- The text in UTF-8. -/
def utf8Bytes (text : String) : List UInt8 :=
  text.toList.flatMap String.utf8EncodeChar

/-- Whether a character of three bytes or four can begin with these two. -/
def beginsLong (first second : UInt8) : Bool :=
  if first = 0xE0 then 0xA0 ≤ second && second ≤ 0xBF
  else if first = 0xED then 0x80 ≤ second && second ≤ 0x9F
  else if first = 0xF0 then 0x90 ≤ second && second ≤ 0xBF
  else if first = 0xF4 then 0x80 ≤ second && second ≤ 0x8F
  else 0xE1 ≤ first && first ≤ 0xF3 && 0x80 ≤ second && second ≤ 0xBF

/-- How many bytes go with a byte that begins no character: as many as a character can have that
begins with all of them. -/
def brokenTail (first : UInt8) : List UInt8 → Nat
  | [] => 0
  | second :: rest =>
    if !beginsLong first second then 0
    else
      match rest with
      | third :: _ => if 0xF0 ≤ first && 0x80 ≤ third && third ≤ 0xBF then 2 else 1
      | [] => 1

/-- The characters of bytes that are read as UTF-8, and none for bytes that belong to none. The
first `skip` bytes are left out. -/
def utf8Pieces : Nat → List UInt8 → List (Option Char)
  | _, [] => []
  | skip + 1, _ :: rest => utf8Pieces skip rest
  | 0, first :: rest =>
    match (first :: rest).toByteArray.utf8DecodeChar? 0 with
    | some c => some c :: utf8Pieces (c.utf8Size - 1) rest
    | none => none :: utf8Pieces (brokenTail first rest) rest

/-- The text that the bytes are, if they are UTF-8. -/
def textOfUtf8? (bytes : List UInt8) : Option String :=
  let pieces := utf8Pieces 0 bytes
  if pieces.all Option.isSome then some (String.ofList (pieces.filterMap id)) else none

/-- The text of bytes in which U+FFFD stands for what is no UTF-8. -/
def lossyText (bytes : List UInt8) : String :=
  String.ofList ((utf8Pieces 0 bytes).map (·.getD '\uFFFD'))

theorem utf8Bytes_append (a b : String) : utf8Bytes (a ++ b) = utf8Bytes a ++ utf8Bytes b := by
  simp [utf8Bytes]

theorem utf8Pieces_append {skipped : List UInt8} (rest : List UInt8) :
    utf8Pieces skipped.length (skipped ++ rest) = utf8Pieces 0 rest := by
  induction skipped with
  | nil => rfl
  | cons b bs ih => exact ih

theorem utf8Pieces_encode (text : List Char) :
    utf8Pieces 0 (text.flatMap String.utf8EncodeChar) = text.map some := by
  induction text with
  | nil => rfl
  | cons c cs ih =>
    obtain ⟨first, tail, hc⟩ := List.exists_cons_of_ne_nil (String.utf8EncodeChar_ne_nil (c := c))
    have hsize : c.utf8Size - 1 = tail.length := by
      rw [← String.length_utf8EncodeChar, hc]
      rfl
    have hdecode :
        (first :: (tail ++ cs.flatMap String.utf8EncodeChar)).toByteArray.utf8DecodeChar? 0 =
          some c := by
      rw [← List.cons_append, ← hc, List.toByteArray_append]
      exact ByteArray.utf8DecodeChar?_utf8EncodeChar_append
    rw [List.flatMap_cons, hc, List.cons_append, utf8Pieces, hdecode, List.map_cons]
    simp only [hsize, utf8Pieces_append, ih]

/-- A text is read back from its bytes. -/
theorem textOfUtf8?_utf8Bytes (text : String) : textOfUtf8? (utf8Bytes text) = some text := by
  simp [textOfUtf8?, utf8Bytes, utf8Pieces_encode, List.filterMap_map]

theorem lossyText_utf8Bytes (text : String) : lossyText (utf8Bytes text) = text := by
  simp [lossyText, utf8Bytes, utf8Pieces_encode, Function.comp_def]

theorem utf8Bytes_injective {a b : String} (h : utf8Bytes a = utf8Bytes b) : a = b := by
  have ha := textOfUtf8?_utf8Bytes a
  rw [h, textOfUtf8?_utf8Bytes] at ha
  exact (Option.some.inj ha).symm

example : lossyText [0x61, 0xE2, 0x82, 0xC3, 0xA9, 0xFF] = "a\uFFFDé\uFFFD" := by decide +kernel

end NamedSql
