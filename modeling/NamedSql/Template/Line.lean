import NamedSql.Text.Blank
import NamedSql.Text.Position

namespace NamedSql

/-- A line with the place where it begins. The ending is the newline, if there is one, with the
carriage returns in front of it. -/
structure Line where
  start : Position
  content : List Char
  ending : List Char
deriving DecidableEq

namespace Line

def text (l : Line) : List Char :=
  l.content ++ l.ending

/-- The place where the ending begins. -/
def contentStop (l : Line) : Position :=
  l.start.after l.content

/-- The line with as many spaces for its content as that has bytes. -/
def blank (l : Line) : Line :=
  { l with content := List.replicate (byteLength l.content) ' ' }

/-- Cuts a text behind each newline. -/
def cut : List Char → List (List Char)
  | [] => []
  | c :: cs =>
    if c = '\n' then [c] :: cut cs
    else
      match cut cs with
      | [] => [[c]]
      | l :: ls => (c :: l) :: ls

/-- Whether a character belongs to the ending of a line. -/
def isEnding (c : Char) : Bool :=
  c == '\n' || c == '\r'

/-- The line that begins at `start` and has the given characters. -/
def ofChars (start : Position) (chars : List Char) : Line :=
  let content := dropEndWhile isEnding chars
  ⟨start, content, chars.drop content.length⟩

/-- The lines with the given characters, the first of which begins at `start`. -/
def locate (start : Position) : List (List Char) → List Line
  | [] => []
  | chars :: rest => ofChars start chars :: locate (start.after chars) rest

def ofText (text : List Char) : List Line :=
  locate .origin (cut text)

def join (lines : List Line) : List Char :=
  lines.flatMap text

@[simp] theorem flatten_cut (cs : List Char) : (cut cs).flatten = cs := by
  induction cs with
  | nil => rfl
  | cons c cs ih =>
    simp only [cut]
    split
    · simp [ih]
    · split <;> simp_all

@[simp] theorem text_ofChars (start : Position) (chars : List Char) :
    (ofChars start chars).text = chars := by
  obtain ⟨dropped, h, -⟩ := dropEndWhile_append isEnding chars
  simp only [text, ofChars]
  generalize dropEndWhile isEnding chars = content at h
  subst h
  rw [List.drop_left]

theorem join_locate (start : Position) (chars : List (List Char)) :
    join (locate start chars) = chars.flatten := by
  induction chars generalizing start with
  | nil => rfl
  | cons cs rest ih => simpa [join, locate] using ih (start.after cs)

/-- The lines put together are the text. -/
@[simp] theorem join_ofText (text : List Char) : join (ofText text) = text := by
  rw [ofText, join_locate, flatten_cut]

/-- A blanked line has as many bytes as before. -/
@[simp] theorem byteLength_text_blank (l : Line) :
    byteLength l.blank.text = byteLength l.text := by
  simp [blank, text]

end Line

end NamedSql
