import LoxLang.Fault
import LoxLang.Text.Bytes
import LoxLang.Token

/-!
# Reading tokens

Text is cut into lexemes from left to right. At each place `Shape.longest` looks for the longest
lexeme that starts there; blanks and comments are dropped, and a character that starts nothing
makes a lexeme of its own, as does all that follows a quote which is never closed.

`Lexeme.report` then turns what starts no token into faults. Stretches that touch are one fault.
The lexeme after such a stretch has been looked at already when the stretch is found to end, and
it is passed on as it is, even if it is unknown text itself.
-/

namespace LoxLang

/-- The kinds of lexemes. -/
inductive Shape where
  /-- White space or a comment. -/
  | blank
  | mark (mark : Mark)
  /-- A name or a keyword. -/
  | word
  | string
  | numeral
  /-- A character that starts no lexeme, or a string that is never closed. -/
  | unknown
deriving DecidableEq, Repr

namespace Shape

/-- White space between tokens. -/
def isSpace (c : Char) : Bool :=
  c == ' ' || c == '\r' || c == '\n' || c == '\t' || c == '\x0c'

/-- What a name starts with. -/
def startsWord (c : Char) : Bool := c.isAlpha || c == '_'

/-- What a name goes on with. -/
def continuesWord (c : Char) : Bool := startsWord c || c.isDigit

/-- How many characters at the front satisfy the predicate. -/
def runLength (p : Char → Bool) (cs : List Char) : Nat := (cs.takeWhile p).length

/-- How many characters of `cs` continue a numeral: digits, then a point if a digit follows it, and
the digits after that. -/
def numeralLength (cs : List Char) : Nat :=
  let whole := runLength Char.isDigit cs
  match cs.drop whole with
  | '.' :: d :: more =>
    if d.isDigit then whole + 2 + runLength Char.isDigit more else whole
  | _ => whole

/-- The mark `double` if `second` comes next, and the mark `single` otherwise. -/
def either (second : Char) (double single : Mark) : List Char → Shape × Nat
  | c :: _ => if c = second then (mark double, 1) else (mark single, 0)
  | [] => (mark single, 0)

/-- The longest lexeme that starts with `c`, where `cs` follows: its kind and how many characters of
`cs` belong to it. -/
def longest (c : Char) (cs : List Char) : Shape × Nat :=
  match c with
  | '(' => (mark .leftParen, 0)
  | ')' => (mark .rightParen, 0)
  | '{' => (mark .leftBrace, 0)
  | '}' => (mark .rightBrace, 0)
  | ',' => (mark .comma, 0)
  | '.' => (mark .dot, 0)
  | ';' => (mark .semicolon, 0)
  | '*' => (mark .star, 0)
  | '-' => either '-' .minusMinus .minus cs
  | '+' => either '+' .plusPlus .plus cs
  | '!' => either '=' .bangEqual .bang cs
  | '=' => either '=' .equalEqual .equal cs
  | '>' => either '=' .greaterEqual .greater cs
  | '<' => either '=' .lessEqual .less cs
  | '/' =>
    match cs with
    | '/' :: _ => (blank, runLength (· != '\n') cs)
    | _ => (mark .slash, 0)
  | '"' =>
    let inside := runLength (· != '"') cs
    if inside < cs.length then (string, inside + 1) else (unknown, inside)
  | c =>
    if isSpace c then (blank, runLength isSpace cs)
    else if startsWord c then (word, runLength continuesWord cs)
    else if c.isDigit then (numeral, numeralLength cs)
    else (unknown, 0)

end Shape

/-- The digits of a numeral as one natural number. -/
def digitsValue (cs : List Char) : Nat :=
  cs.foldl (fun n c ↦ if c.isDigit then 10 * n + (c.toNat - '0'.toNat) else n) 0

/-- The number nearest to a numeral: all its digits, divided by ten for each digit after the
point. -/
def numeralValue (cs : List Char) : Float :=
  Float.ofScientific (digitsValue cs) true (cs.dropWhile (· != '.')).tail.length

/-- The token of a lexeme, unless it is blank. -/
def Shape.token? (lexeme : List Char) : Shape → Option Token
  | blank => none
  | mark m => some (.mark m)
  | word => some ((Mark.ofWord? lexeme).elim (.identifier (String.ofList lexeme)) .mark)
  | string => some (.string (String.ofList (lexeme.tail.dropLast)))
  | numeral => some (.number (numeralValue lexeme))
  | unknown => some .unknown

namespace Lexeme

/-- The lexemes of a text that starts at `offset`, without the blank ones. -/
def scan (offset : Nat) : List Char → List Lexeme
  | [] => []
  | c :: cs =>
    let (shape, more) := Shape.longest c cs
    let text := c :: cs.take more
    let stop := offset + Text.byteLength text
    let rest := scan stop (cs.drop more)
    match shape.token? text with
    | none => rest
    | some token => { token, text, span := ⟨offset, stop⟩ } :: rest
termination_by cs => cs.length
decreasing_by simp only [List.length_drop, List.length_cons]; omega

/-- The fault of a stretch of unknown text. -/
def unexpected (x : Lexeme) : Fault := ⟨.unexpectedInput (String.ofList x.text), x.span⟩

/-- Whether the lexeme is a string that is never closed. -/
def isUnclosed (x : Lexeme) : Bool :=
  x.token.isUnknown && x.text.head? == some '"'

/-- Two stretches of unknown text that touch, as one. -/
def join (x y : Lexeme) : Lexeme :=
  { token := .unknown, text := x.text ++ y.text, span := x.span.through y.span }

/-- The lexemes with unknown text turned into faults. The first argument is the stretch of unknown
text just before the list, if it has not been reported yet. -/
def report : Option Lexeme → List Lexeme → List (Except Fault Lexeme)
  | none, [] => []
  | some stretch, [] => [.error stretch.unexpected]
  | none, x :: rest =>
    if x.isUnclosed then .error ⟨.unterminatedString, x.span⟩ :: report none rest
    else if x.token.isUnknown then report (some x) rest
    else .ok x :: report none rest
  | some stretch, x :: rest =>
    if x.token.isUnknown && stretch.span.meets x.span then report (some (stretch.join x)) rest
    else .error stretch.unexpected :: .ok x :: report none rest

/-- The tokens and the faults of a source that is read at an offset, in the order of the text. -/
def read (source : String) (offset : Nat) : List (Except Fault Lexeme) :=
  report none (scan offset source.toList)

end Lexeme

end LoxLang
