import LoxLang.Fault
import LoxLang.Text.Lines

/-!
# Reports

A report shows each fault with the lines it is charged to, in the order of their places. First
comes what is wrong and where; then, behind a bar, the lines with marks under them, or beside them
if there are several; and last the notes, one of which names the line.

All the lines of a snippet keep a margin for line numbers, as wide as the largest number needs.
-/

namespace LoxLang

/-- The line in which a span starts, counted from one. A span that starts beyond the text counts
as starting at its end. -/
def lineOf (source : String) (span : Span) : Nat :=
  Text.breaksBefore source (min span.start source.utf8ByteSize) + 1

namespace Report

/-- The name of the text in reports. -/
def sourceName : String := "<script>"

/-! ### Pieces of text -/

/-- So many copies of a character. -/
def times (n : Nat) (c : Char) : String := String.ofList (List.replicate n c)

/-- A text that is filled up with spaces on the left. -/
def alignRight (width : Nat) (s : String) : String := times (width - s.length) ' ' ++ s

/-- Several words as alternatives. -/
def alternatives : List String → String
  | [] => "nothing"
  | [word] => word
  | words => String.join (words.dropLast.map (· ++ ", ")) ++ "or " ++ words.getLast?.getD ""

/-- The notes of a fault. What was expected is noted twice. -/
def notes (source : String) (f : Fault) : List String :=
  let expected := (f.cause.expected?.map fun words ↦ "expected: " ++ alternatives words).toList
  expected ++ expected ++ [s!"[line {lineOf source f.span}]"]

/-! ### Snippets -/

/-- How the lines of a snippet begin: a number or none, right-aligned in the margin, and a bar. -/
def gutter (margin : Nat) (number : Option Nat) : String :=
  alignRight margin (number.elim "" toString) ++ " │"

/-- The marks under a line for the bytes from `start` to `stop` of it. Every character of the line
that overlaps them is marked in all its columns, and so is the place after the line. -/
def underline (l : Text.Line) (start stop : Nat) : String :=
  let stop := max stop (start + 1)
  let cells := l.cells
  let length := cells.getLast?.elim 0 Text.Cell.stop
  let mark (first past width : Nat) : String :=
    if max first start < min past stop then times width '^'
    else if first < stop then times width ' '
    else ""
  String.join (cells.map fun c ↦ mark c.offset c.stop c.width) ++ mark length (length + 1) 1

/-- A snippet of one line. -/
def singleLine (margin number : Nat) (l : Text.Line) (span : Span) : List String :=
  [ gutter margin none,
    gutter margin (some number) ++ " " ++ l.shown,
    gutter margin none ++ " " ++ underline l (span.start - l.start) (span.stop - l.start),
    gutter margin none ]

/-- The first of several lines. What is before the span is told from it by a mark under the line,
unless it is only white space. -/
def firstLine (margin number : Nat) (l : Text.Line) (start : Nat) : List String :=
  let bar := gutter margin (some number)
  if start ≤ l.indentation then [bar ++ " ╭ " ++ l.shown]
  else
    [ bar ++ "   " ++ l.shown,
      gutter margin none ++ " ╭" ++ times (l.columnsBefore (start + 1)) '─' ++ "^" ]

/-- How many lines after the first are always shown. -/
def context : Nat := 3

/-- The lines between the first and the last, with their numbers. Two or more that are far from
both become dots. -/
def middleLines (margin : Nat) (lines : List (Nat × Text.Line)) : List String :=
  let shown (ls : List (Nat × Text.Line)) : List String :=
    ls.map fun (number, l) ↦ gutter margin (some number) ++ " │ " ++ l.shown
  let near := lines.take context
  let far := lines.drop context
  let hidden := far.length - 1
  if hidden ≤ 1 then shown lines
  else shown near ++ [times margin ' ' ++ " · │"] ++ shown (far.drop hidden)

/-- A snippet of several lines, with their numbers. -/
def severalLines (margin : Nat) (first last : Nat × Text.Line) (middle : List (Nat × Text.Line))
    (span : Span) : List String :=
  let bar := gutter margin none
  let (number, l) := last
  [bar ++ "  "] ++ firstLine margin first.1 first.2 (span.start - first.2.start) ++
    middleLines margin middle ++
    [ gutter margin (some number) ++ " │ " ++ l.shown,
      bar ++ " ╰" ++ times (l.columnsBefore (span.stop - l.start)) '─' ++ "^",
      bar ++ "  " ]

/-! ### Whole reports -/

/-- The lines of the report on one fault. -/
def ofFault (source : String) (f : Fault) : List String :=
  let lines := Text.linesOf source
  let lineAt (index : Nat) : Text.Line := lines[index]?.getD ⟨0, []⟩
  let first := Text.breaksBefore source f.span.start
  let last := max first (Text.breaksBefore source f.span.stop)
  let margin := (toString (last + 1)).length
  let numbered (index : Nat) : Nat × Text.Line := (index + 1, lineAt index)
  let column := (lineAt first).charactersBefore f.span.start + 1
  let snippet :=
    if first = last then singleLine margin (first + 1) (lineAt first) f.span
    else
      let middle := (List.range (last - first - 1)).map fun i ↦ numbered (first + 1 + i)
      severalLines margin (numbered first) (numbered last) middle f.span
  let note (text : String) : List String :=
    match Text.readLines text with
    | [] => []
    | line :: more =>
      (times margin ' ' ++ " = " ++ line) :: more.map (times margin ' ' ++ "   " ++ ·)
  [ s!"error[{f.cause.category.label}]: {f.cause.description}",
    times margin ' ' ++ s!" ┌─ {sourceName}:{first + 1}:{column}" ] ++
    snippet ++ (notes source f).flatMap note ++ [""]

/-- Faults in the order of their places; those of one place keep their order. -/
def ordered (faults : List Fault) : List Fault :=
  faults.mergeSort fun a b ↦ a.span.before b.span

/-- The report on some faults of a text. -/
def render (source : String) (faults : List Fault) : String :=
  String.join (((ordered faults).flatMap (ofFault source)).map (· ++ "\n"))

end Report

end LoxLang
