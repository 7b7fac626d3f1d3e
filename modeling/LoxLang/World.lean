import LoxLang.Machine

/-!
# The world around a program

A world holds what a program can reach outside: the bytes of its input that are not read yet, what
it has printed, and the readings of a clock. Output may have a limit: when that many line breaks
have been written, every later write is refused. A line is written in two parts, its text and its
line break, so a text with line breaks of its own may still be written when the line break after
it is refused.
-/

namespace LoxLang

/-- What lies outside a program. -/
structure World where
  /-- The input that is not read yet. -/
  input : List UInt8
  /-- What has been printed. -/
  printed : String
  /-- Line breaks that have been printed. -/
  lines : Nat
  /-- How many line breaks can be printed, if there is a limit. -/
  limit : Option Nat
  /-- The time at each reading of the clock. -/
  clock : Nat → Float
  /-- How often the clock has been read. -/
  readings : Nat

namespace World

/-- A world with this input, in which nothing has happened. -/
def ofInput (input : List UInt8) (limit : Option Nat) (clock : Nat → Float) : World :=
  { input, printed := "", lines := 0, limit, clock, readings := 0 }

/-- Whether no more can be printed. -/
def isFull (w : World) : Bool := w.limit.any (· ≤ w.lines)

/-! ### Output -/

/-- With one more text printed. -/
def print (w : World) (text : String) : World :=
  let ⟨input, printed, lines, limit, clock, readings⟩ := w
  { input, printed := printed ++ text, lines := lines + text.toList.count '\n', limit, clock,
    readings }

/-- Prints a text and a line break, and says whether both were written. An empty text needs no
writing, so only the line break after it can be refused. -/
def writeLine (w : World) (text : String) : Bool × World :=
  if w.isFull && !text.isEmpty then (false, w)
  else
    let w := w.print text
    if w.isFull then (false, w) else (true, w.print "\n")

/-! ### Input -/

/-- The bytes up to and including the first line break, and the rest. -/
def takeLine (input : List UInt8) : List UInt8 × List UInt8 :=
  let line := input.takeWhile (· ≠ 10)
  match input.dropWhile (· ≠ 10) with
  | b :: rest => (line ++ [b], rest)
  | [] => (line, [])

/-- Without a line break at the end; before a line break, a carriage return goes too. -/
def withoutBreak (line : List UInt8) : List UInt8 :=
  match line.reverse with
  | 10 :: 13 :: rest => rest.reverse
  | 10 :: rest => rest.reverse
  | _ => line

/-- The text of a line of input. -/
def decodeLine (line : List UInt8) : InputLine :=
  match String.fromUTF8? ⟨line.toArray⟩ with
  | none => .invalid
  | some _ =>
    match String.fromUTF8? ⟨(withoutBreak line).toArray⟩ with
    | none => .invalid
    | some text => .line text

/-- Reads one line. A line that is no text is read all the same. -/
def readLine (w : World) : InputLine × World :=
  match w.input with
  | [] => (.closed, w)
  | input =>
    let (line, rest) := takeLine input
    (decodeLine line, { w with input := rest })

/-- Answers a request. -/
def answer (w : World) : (r : Request) → r.Reply × World
  | .writeLine text => w.writeLine text
  | .readLine => w.readLine
  | .readClock => (w.clock w.readings, { w with readings := w.readings + 1 })

end World

/-- Runs the machine for at most so many steps. There is no ending if they were too few. -/
def State.run (table : Distances) : Nat → World → State → World × Heap × Option Ending
  | 0, w, s => (w, s.heap, none)
  | fuel + 1, w, s =>
    match s.step table with
    | .moved s => run table fuel w s
    | .waiting request resume =>
      let (reply, w) := w.answer request
      run table fuel w (resume reply)
    | .stopped ending heap => (w, heap, some ending)

end LoxLang
