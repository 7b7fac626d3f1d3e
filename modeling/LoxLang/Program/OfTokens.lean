import LoxLang.Program
import LoxLang.Token.Scan

/-!
# Programs of token lists

A program is read by recursive descent. A reader is a function of a `Cursor`, the place reached in
the token list together with the faults noted so far. It gives a value, or a fault that gives up
the statement being read, or nothing at all because its fuel ran out; the three are kept apart, and
the fuel that `Program.ofLexemes` hands out is enough for every list. A reader looks at the token
ahead before it passes it. One that did not could go astray, and then it would have no answer
either; none of the readers below does.

A fault does not end the reading: the reader notes it, skips to where a statement is likely to
begin, and goes on, so every independent fault is found in one pass. Three faults are noted without
giving anything up, because the text is still understood: a value assigned to what is no target,
and an argument or a parameter too many.
-/

namespace LoxLang

/-! ### Cursors -/

/-- A place in a list of tokens, and the faults noted on the way to it. -/
structure Cursor where
  /-- The tokens ahead. -/
  rest : List Lexeme
  /-- The token just behind, if there is one. -/
  last : Option Lexeme
  /-- The offset at which the text ends. -/
  stop : Nat
  /-- The faults noted so far, in the order they were noted. -/
  faults : List Fault

namespace Cursor

/-- One token further. -/
def advance (c : Cursor) : Cursor :=
  match c.rest with
  | [] => c
  | x :: rest => { c with rest, last := some x }

/-- With one more fault noted. -/
def note (f : Fault) (c : Cursor) : Cursor := { c with faults := c.faults ++ [f] }

/-- Where the token just behind ends. -/
def reached (c : Cursor) : Nat := c.last.elim c.stop (·.span.stop)

/-- Whether a token is a keyword that only begins a statement. -/
def beginsStatement : Token → Bool
  | .mark .classWord | .mark .funWord | .mark .varWord | .mark .forWord | .mark .ifWord
  | .mark .whileWord | .mark .printWord | .mark .returnWord => true
  | _ => false

/-- The token just behind and the tokens ahead, at the first place that follows a semicolon or
stands before a keyword that begins a statement. -/
def nextStatement : Option Lexeme → List Lexeme → Option Lexeme × List Lexeme
  | last, [] => (last, [])
  | last, x :: rest =>
    if last.any (·.token.isMark .semicolon) || beginsStatement x.token then (last, x :: rest)
    else nextStatement (some x) rest

/-- After a fault: past the token at fault, and on to where a statement is likely to begin. -/
def recover (c : Cursor) : Cursor :=
  let c := c.advance
  let (last, rest) := nextStatement c.last c.rest
  { c with last, rest }

/-- The fault of finding something else than what is expected. -/
def unexpected (expected : List String) (c : Cursor) : Fault :=
  match c.rest with
  | [] => ⟨.unexpectedEnd expected, .point c.stop⟩
  | x :: _ => ⟨.unexpectedToken x.token.text expected, x.span⟩

end Cursor

/-! ### Readers -/

/-- How a reader could be wrong about the token ahead. -/
inductive Misstep where
  /-- It passes a token where none is ahead. -/
  | pastEnd
  /-- It has seen a name ahead, and what it passes is none. -/
  | notAName
deriving DecidableEq, Repr

/-- What a reader comes to. -/
inductive Outcome (α : Type) where
  | ok (value : α) (next : Cursor)
  /-- The statement being read is given up. -/
  | fault (fault : Fault) (next : Cursor)
  /-- The reader was given too little fuel. -/
  | exhausted
  | astray (misstep : Misstep)

/-- Reads an `α` at a cursor. -/
def Reader (α : Type) := Cursor → Outcome α

namespace Reader

variable {α β : Type}

/-- Reads nothing. -/
@[inline] protected def pure (a : α) : Reader α := fun c ↦ .ok a c

/-- Reads one thing, and then another that may depend on it. -/
@[inline] protected def bind (p : Reader α) (f : α → Reader β) : Reader β := fun c ↦
  match p c with
  | .ok a c => f a c
  | .fault e c => .fault e c
  | .exhausted => .exhausted
  | .astray m => .astray m

instance : Monad Reader where
  pure := Reader.pure
  bind := Reader.bind

/-- Gives no answer. -/
def exhausted : Reader α := fun _ ↦ .exhausted

/-- Goes astray. -/
def astray (m : Misstep) : Reader α := fun _ ↦ .astray m

/-- Gives up with what was expected here. -/
def unexpected (expected : List String) : Reader α := fun c ↦ .fault (c.unexpected expected) c

/-- Notes a fault and goes on. -/
def note (f : Fault) : Reader Unit := fun c ↦ .ok () (c.note f)

/-- The token ahead. -/
def peek : Reader (Option Token) := fun c ↦ .ok (c.rest.head?.map (·.token)) c

/-- The token after the one ahead. -/
def peekSecond : Reader (Option Token) := fun c ↦ .ok (c.rest.tail.head?.map (·.token)) c

/-- Whether the token ahead is this mark. -/
def sees (m : Mark) : Reader Bool := fun c ↦
  .ok (c.rest.head?.any (·.token.isMark m)) c

/-- Whether no token is ahead. -/
def atEnd : Reader Bool := fun c ↦ .ok c.rest.isEmpty c

/-- The span from an offset to the end of the token just behind. -/
def spanFrom (start : Nat) : Reader Span := fun c ↦ .ok ⟨start, c.reached⟩ c

/-- Passes the token ahead, whatever it is. There must be one. -/
def take : Reader Lexeme := fun c ↦
  match c.rest with
  | [] => .astray .pastEnd
  | x :: _ => .ok x c.advance

/-- Passes the token ahead, whatever it is, and gives its place. There must be one. -/
def skip : Reader Span := do return (← take).span

/-- Passes the token ahead if it is this mark, and says whether it was. -/
def accept (m : Mark) : Reader Bool := do
  if ← sees m then
    let _ ← skip
    return true
  else
    return false

/-- Passes this mark; anything else is a fault. -/
def expect (m : Mark) : Reader Span := do
  if ← sees m then skip else unexpected [Text.quoted m.spelling]

/-- Passes a name; anything else is a fault, which says what the name was to be. -/
def expectName (what : String) : Reader Name := do
  match ← peek with
  | some (.identifier _) =>
    let x ← take
    match x.token with
    | .identifier text => return ⟨text, x.span⟩
    | _ => astray .notAName
  | _ => unexpected [what]

/-- Reads unless the mark is ahead. -/
def unlessSees (m : Mark) (p : Reader α) : Reader (Option α) := do
  if ← sees m then return none else return some (← p)

/-- Reads one statement. If it has to be given up, its fault is noted and the reader skips to where
the next is likely to begin. -/
def recovering (p : Reader α) : Reader (Option α) := fun c ↦
  match p c with
  | .ok a c => .ok (some a) c
  | .fault f c => .ok none (c.note f).recover
  | .exhausted => .exhausted
  | .astray m => .astray m

end Reader

/-! ### Expressions and statements -/

/-- The operators that bind equally strongly, from the loosest level to the tightest. -/
def BinaryOp.levels : List (List (Mark × BinaryOp)) := [
  [(.orWord, .or)],
  [(.andWord, .and)],
  [(.equalEqual, .equal), (.bangEqual, .notEqual)],
  [(.greater, .greater), (.greaterEqual, .greaterEqual), (.less, .less), (.lessEqual, .lessEqual)],
  [(.plus, .add), (.minus, .subtract)],
  [(.star, .multiply), (.slash, .divide)]]

/-- The operator of a level that a token stands for. -/
def BinaryOp.ofToken? (level : List (Mark × BinaryOp)) (t : Option Token) : Option BinaryOp :=
  level.findSome? fun (m, op) ↦ if t.any (·.isMark m) then some op else none

namespace Reader

/-- A literal that is one token. -/
def literal? : Option Token → Option Literal
  | some (.mark .falseWord) => some (.bool false)
  | some (.mark .trueWord) => some (.bool true)
  | some (.mark .nilWord) => some .nil
  | some (.number x) => some (.number x)
  | some (.string s) => some (.string s)
  | _ => none

/-- The operator that steps a variable, if the token is one. -/
def stepOp? : Option Token → Option StepOp
  | some (.mark .plusPlus) => some .increment
  | some (.mark .minusMinus) => some .decrement
  | _ => none

/-- An assignment to what was read as `target`. What is no target stays as it is, and the fault is
noted at the equals sign. -/
def assignTo (target : Expr) (equals : Span) (value : Expr) : Reader Expr :=
  match target with
  | .var span name => return .assign (span.through value.span) name value
  | .property span object name => return .setProperty (span.through value.span) object name value
  | target => do
    note ⟨.invalidAssignmentTarget, equals⟩
    return target

mutual

/-- An assignment, or anything that binds more tightly. Assignments associate to the right. -/
def expression : Nat → Reader Expr
  | 0 => exhausted
  | fuel + 1 => do
    let target ← binary fuel BinaryOp.levels
    if ← sees .equal then
      let equals ← skip
      let value ← expression fuel
      assignTo target equals value
    else
      return target

/-- Operands joined by operators of these levels, which associate to the left. -/
def binary : Nat → List (List (Mark × BinaryOp)) → Reader Expr
  | 0, _ => exhausted
  | fuel + 1, [] => unary fuel
  | fuel + 1, level :: tighter => do
    let left ← binary fuel tighter
    chain fuel level tighter left

/-- The operators of one level and their right operands, as far as they go. -/
def chain : Nat → List (Mark × BinaryOp) → List (List (Mark × BinaryOp)) → Expr →
    Reader Expr
  | 0, _, _, _ => exhausted
  | fuel + 1, level, tighter, left => do
    match BinaryOp.ofToken? level (← peek) with
    | some op =>
      let _ ← skip
      let right ← binary fuel tighter
      chain fuel level tighter (.binary (left.span.through right.span) op left right)
    | none => return left

/-- An operator before an operand, or a call. -/
def unary : Nat → Reader Expr
  | 0 => exhausted
  | fuel + 1 => do
    match ← peek with
    | some (.mark .bang) =>
      let sign ← skip
      let operand ← unary fuel
      return .unary (sign.through operand.span) .not operand
    | some (.mark .minus) =>
      let sign ← skip
      let operand ← unary fuel
      return .unary (sign.through operand.span) .negate operand
    | token =>
      match stepOp? token with
      | some op =>
        let sign ← skip
        let name ← expectName "variable name"
        return .step (sign.through name.span) .before op name.text
      | none =>
        let callee ← primary fuel
        suffixes fuel callee

/-- The calls and properties that follow an operand, as far as they go. -/
def suffixes : Nat → Expr → Reader Expr
  | 0, _ => exhausted
  | fuel + 1, e => do
    match ← peek with
    | some (.mark .leftParen) =>
      let _ ← skip
      let args ← unlessSees .rightParen (arguments fuel 0)
      let close ← expect .rightParen
      suffixes fuel (.call (e.span.through close) e (args.getD []))
    | some (.mark .dot) =>
      let _ ← skip
      let name ← expectName "property name"
      suffixes fuel (.property (e.span.through name.span) e name.text)
    | _ => return e

/-- The arguments of a call, of which `count` have been read. -/
def arguments : Nat → Nat → Reader (List Expr)
  | 0, _ => exhausted
  | fuel + 1, count => do
    let argument ← expression fuel
    if Cause.listLimit ≤ count then note ⟨.tooManyArguments, argument.span⟩
    if ← accept .comma then
      let others ← arguments fuel (count + 1)
      return argument :: others
    else
      return [argument]

/-- An operand without operators. -/
def primary : Nat → Reader Expr
  | 0 => exhausted
  | fuel + 1 => do
    let token ← peek
    match literal? token with
    | some value => return .literal (← skip) value
    | none =>
      match token with
      | some (.identifier _) =>
        let name ← expectName "expression"
        match stepOp? (← peek) with
        | some op =>
          let sign ← skip
          return .step (name.span.through sign) .after op name.text
        | none => return .var name.span name.text
      | some (.mark .thisWord) => return .this (← skip)
      | some (.mark .superWord) =>
        let word ← skip
        let _ ← expect .dot
        let name ← expectName "superclass method name"
        return .super (word.through name.span) name.text
      | some (.mark .leftParen) =>
        let opening ← skip
        let inner ← expression fuel
        let closing ← expect .rightParen
        return .group (opening.through closing) inner
      | some (.mark .funWord) =>
        let word ← skip
        return .lambda (← function fuel word.start FunDecl.anonymous)
      | _ => unexpected ["expression"]

/-- The parameters and the body of a function that starts at an offset and has this name. -/
def function : Nat → Nat → String → Reader FunDecl
  | 0, _, _ => exhausted
  | fuel + 1, start, name => do
    let _ ← expect .leftParen
    let params ← unlessSees .rightParen (parameters fuel 0)
    let _ ← expect .rightParen
    let _ ← expect .leftBrace
    let body ← blockBody fuel
    return .mk (← spanFrom start) name (params.getD []) body

/-- The parameters of a function, of which `count` have been read. -/
def parameters : Nat → Nat → Reader (List Name)
  | 0, _ => exhausted
  | fuel + 1, count => do
    let param ← expectName "parameter name"
    if Cause.listLimit ≤ count then note ⟨.tooManyParameters, param.span⟩
    if ← accept .comma then
      let others ← parameters fuel (count + 1)
      return param :: others
    else
      return [param]

/-- The declarations of a block and the brace that closes it. -/
def blockBody : Nat → Reader (List Stmt)
  | 0 => exhausted
  | fuel + 1 => do
    if (← sees .rightBrace) || (← atEnd) then
      let _ ← expect .rightBrace
      return []
    else
      let first ← recovering (declaration fuel)
      let others ← blockBody fuel
      return first.toList ++ others

/-- A declaration of a class, a function or a variable, or any other statement. -/
def declaration : Nat → Reader Stmt
  | 0 => exhausted
  | fuel + 1 => do
    match ← peek with
    | some (.mark .classWord) => classDecl fuel
    | some (.mark .funWord) =>
      if (← peekSecond).any (·.isIdentifier) then
        let word ← skip
        let name ← expectName "function name"
        return .funDecl (← function fuel word.start name.text)
      else
        statement fuel
    | some (.mark .varWord) => varDecl fuel
    | _ => statement fuel

/-- A class with its methods. -/
def classDecl : Nat → Reader Stmt
  | 0 => exhausted
  | fuel + 1 => do
    let word ← skip
    let name ← expectName "class name"
    let superclass ← if ← accept .less then some <$> expectName "superclass name" else pure none
    let _ ← expect .leftBrace
    let methods ← methods fuel
    let closing ← expect .rightBrace
    return .classDecl (word.through closing) name.text superclass methods

/-- The methods of a class, up to the brace that closes it. -/
def methods : Nat → Reader (List FunDecl)
  | 0 => exhausted
  | fuel + 1 => do
    if (← sees .rightBrace) || (← atEnd) then
      return []
    else
      let name ← expectName "method name"
      let first ← function fuel name.span.start name.text
      let others ← methods fuel
      return first :: others

/-- A variable, with or without a value. -/
def varDecl : Nat → Reader Stmt
  | 0 => exhausted
  | fuel + 1 => do
    let word ← skip
    let name ← expectName "variable name"
    let value ← if ← accept .equal then some <$> expression fuel else pure none
    let closing ← expect .semicolon
    return .varDecl (word.through closing) name.text value

/-- An expression and a semicolon. -/
def expressionStmt : Nat → Reader Stmt
  | 0 => exhausted
  | fuel + 1 => do
    let value ← expression fuel
    let closing ← expect .semicolon
    return .expression (value.span.through closing) value

/-- A statement that declares nothing. -/
def statement : Nat → Reader Stmt
  | 0 => exhausted
  | fuel + 1 => do
    match ← peek with
    | some (.mark .forWord) => forLoop fuel
    | some (.mark .ifWord) =>
      let word ← skip
      let _ ← expect .leftParen
      let condition ← expression fuel
      let _ ← expect .rightParen
      let yes ← statement fuel
      let no ← if ← accept .elseWord then some <$> statement fuel else pure none
      return .conditional (word.through (no.getD yes).span) condition yes no
    | some (.mark .leftBrace) =>
      let opening ← skip
      let body ← blockBody fuel
      return .block (← spanFrom opening.start) body
    | some (.mark .printWord) =>
      let word ← skip
      let value ← expression fuel
      let closing ← expect .semicolon
      return .print (word.through closing) value
    | some (.mark .returnWord) =>
      let word ← skip
      let value ← unlessSees .semicolon (expression fuel)
      let closing ← expect .semicolon
      return .returns (word.through closing) value
    | some (.mark .whileWord) =>
      let word ← skip
      let _ ← expect .leftParen
      let condition ← expression fuel
      let _ ← expect .rightParen
      let body ← statement fuel
      return .whileLoop (word.through body.span) condition body
    | _ => expressionStmt fuel

/-- A `for` loop. Its first clause may declare a variable; each clause may be missing. -/
def forLoop : Nat → Reader Stmt
  | 0 => exhausted
  | fuel + 1 => do
    let word ← skip
    let _ ← expect .leftParen
    let init ←
      match ← peek with
      | some (.mark .semicolon) =>
        let _ ← skip
        pure none
      | some (.mark .varWord) => some <$> varDecl fuel
      | _ => some <$> expressionStmt fuel
    let condition ← unlessSees .semicolon (expression fuel)
    let _ ← expect .semicolon
    let step ← unlessSees .rightParen (expression fuel)
    let _ ← expect .rightParen
    let body ← statement fuel
    return .forLoop (word.through body.span) init condition step body

end

/-! ### Whole programs -/

/-- All declarations up to the end of the text. -/
def program (depth : Nat) : Nat → Reader Program
  | 0 => exhausted
  | fuel + 1 => do
    if ← atEnd then
      return []
    else
      let first ← recovering (declaration depth)
      let others ← program depth fuel
      return first.toList ++ others

end Reader

namespace Program

/-- Enough fuel for every reader of a list of this length: between two tokens at most a dozen and
a half readers call one another. -/
def fuelFor (length : Nat) : Nat := 32 * (length + 1)

/-- The program of a token list whose text ends at `stop`, or the faults of the list. -/
def ofLexemes (tokens : List Lexeme) (stop : Nat) : Except (List Fault) Program :=
  let fuel := fuelFor tokens.length
  match Reader.program fuel fuel { rest := tokens, last := none, stop, faults := [] } with
  | .ok program c => if c.faults.isEmpty then .ok program else .error c.faults
  | .fault f c => .error (c.faults ++ [f])
  | .exhausted | .astray _ => .error []

/-- The faults among what was read of a text. -/
def faultsOf (items : List (Except Fault Lexeme)) : List Fault :=
  items.filterMap fun | .ok _ => none | .error f => some f

/-- The tokens among what was read of a text. -/
def lexemesOf (items : List (Except Fault Lexeme)) : List Lexeme :=
  items.filterMap fun | .ok x => some x | .error _ => none

/-- The program of a source that is read at an offset. The faults of its tokens come before those
of its grammar. -/
def read (source : String) (offset : Nat) : Except (List Fault) Program :=
  let items := Lexeme.read source offset
  let noted := faultsOf items
  match ofLexemes (lexemesOf items) (offset + source.utf8ByteSize) with
  | .ok program => if noted.isEmpty then .ok program else .error noted
  | .error faults => .error (noted ++ faults)

/-- How much a token opens, counted in brackets. -/
def opening (t : Token) : Int :=
  match t with
  | .mark .leftParen | .mark .leftBrace => 1
  | .mark .rightParen | .mark .rightBrace => -1
  | _ => 0

/-- How much several tokens open and leave open. -/
def balance : List Token → Int
  | [] => 0
  | t :: ts => opening t + balance ts

/-- Whether a text needs no more lines: it has no string that is never closed, and no more opening
brackets than closing ones. -/
def isComplete (source : String) : Bool :=
  let items := Lexeme.read source 0
  !(faultsOf items).any (·.cause == .unterminatedString) &&
    balance ((lexemesOf items).map (·.token)) ≤ 0

end Program

end LoxLang
