import LoxLang.Text.Blank
import LoxLang.Text.Bytes
import LoxLang.Text.Width

/-!
# Lines of a text

Only `\n` ends a line. A text always has one line more than line breaks, and the last one may be
empty. Offsets count bytes of UTF-8 from the start of the text.

To set marks under a line, its characters are laid out as cells, each with the columns it takes.
-/

namespace LoxLang.Text

/-- Characters with the offsets of their first bytes, where the first stands at `offset`. -/
def withOffsets (offset : Nat) : List Char → List (Nat × Char)
  | [] => []
  | c :: cs => (offset, c) :: withOffsets (offset + c.utf8Size) cs

/-- The number of line breaks before an offset. -/
def breaksBefore (text : String) (offset : Nat) : Nat :=
  (withOffsets 0 text.toList).countP fun (i, c) ↦ i < offset && c == '\n'

/-- A line of a text. -/
structure Line where
  /-- The offset of its first character. -/
  start : Nat
  /-- Its characters, without what ends it. -/
  content : List Char
deriving DecidableEq, Repr

/-- The lines of the characters, where the first line starts at `start` and `content`, which is
reversed, is the part of it that has been read. -/
def linesFrom (start : Nat) (content : List Char) : List Char → List Line
  | [] => [{ start, content := content.reverse }]
  | c :: cs =>
    if c = '\n' then
      { start, content := content.reverse } ::
        linesFrom (start + byteLength content + 1) [] cs
    else linesFrom start (c :: content) cs

/-- All lines of a text. -/
def linesOf (text : String) : List Line := linesFrom 0 [] text.toList

/-- The lines of a text that is read line by line: a line break at its end begins no further line,
and a carriage return before a line break belongs to it. -/
def readLines (text : String) : List String :=
  let lines := (linesOf text).map (·.content)
  let ended := lines.dropLast.map fun l ↦ if l.getLast? = some '\r' then l.dropLast else l
  let rest := (lines.getLast?.filter (!·.isEmpty)).toList
  (ended ++ rest).map String.ofList

/-- A character as it is laid out in a line. -/
structure Cell where
  /-- Its offset in the line. -/
  offset : Nat
  /-- The character. -/
  char : Char
  /-- The columns that it takes. -/
  width : Nat
deriving DecidableEq, Repr

namespace Cell

/-- The offset just after the character. -/
def stop (c : Cell) : Nat := c.offset + c.char.utf8Size

/-- The character as it is shown: a tab as spaces. -/
def shown (c : Cell) : List Char :=
  if c.char = '\t' then List.replicate c.width ' ' else [c.char]

end Cell

/-- The columns of several cells. -/
def totalWidth : List Cell → Nat
  | [] => 0
  | c :: cs => c.width + totalWidth cs

/-- Characters as cells, where the first stands at this offset and this column. -/
def cellsFrom (offset column : Nat) : List Char → List Cell
  | [] => []
  | c :: cs =>
    let width := columnsAt column c
    { offset, char := c, width } :: cellsFrom (offset + c.utf8Size) (column + width) cs

namespace Line

/-- What is left out at the end of a line that is shown. -/
def isTrailing (c : Char) : Bool := c == '\n' || c == '\r' || c == '\x00'

/-- The cells of a line, up to the first character of its trailing ones. -/
def cells (l : Line) : List Cell :=
  cellsFrom 0 0 (l.content.reverse.dropWhile isTrailing).reverse

/-- The line as it is shown. -/
def shown (l : Line) : String := String.ofList (l.cells.flatMap Cell.shown)

/-- The columns of the characters that start before an offset of the line. -/
def columnsBefore (l : Line) (offset : Nat) : Nat :=
  totalWidth (l.cells.filter (·.offset < offset))

/-- The bytes of white space at the start of the line. -/
def indentation (l : Line) : Nat :=
  byteLength ((l.cells.takeWhile fun c ↦ isBlank c.char).map (·.char))

/-- The number of characters that end at or before an offset of the text. -/
def charactersBefore (l : Line) (offset : Nat) : Nat :=
  (withOffsets l.start l.content).countP fun (i, c) ↦ i + c.utf8Size ≤ offset

end Line

end LoxLang.Text
