import LoxLang.Span

/-!
# Programs

A program is a list of statements. Every expression and statement carries the span of its text:
expressions because their spans are how references are told apart once distances have been worked
out, statements because faults are charged to them.

Three decisions shape the types.

* A function is one type, `FunDecl`, whether it is declared by a statement, written as an
  expression or a method of a class; it carries its own span.
* A name with a place is a `Name`. Parameters and superclasses are names; a superclass is read as
  an ordinary variable (`Name.toExpr`).
* What is optional in the text is an `Option` in the tree, so a `for` without a condition is told
  apart from a `for` whose condition is `true`.
-/

namespace LoxLang

/-- The operators between two operands. -/
inductive BinaryOp where
  | or | and
  | equal | notEqual
  | greater | greaterEqual | less | lessEqual
  | add | subtract
  | multiply | divide
deriving DecidableEq, Repr

/-- The operator as it is written. -/
def BinaryOp.symbol : BinaryOp → String
  | or => "or"
  | and => "and"
  | equal => "=="
  | notEqual => "!="
  | greater => ">"
  | greaterEqual => ">="
  | less => "<"
  | lessEqual => "<="
  | add => "+"
  | subtract => "-"
  | multiply => "*"
  | divide => "/"

/-- The operators before one operand. -/
inductive UnaryOp where
  | negate | not
deriving DecidableEq, Repr

/-- The operator as it is written. -/
def UnaryOp.symbol : UnaryOp → String
  | negate => "-"
  | not => "!"

/-- The operators that change a variable by one. -/
inductive StepOp where
  | increment | decrement
deriving DecidableEq, Repr

/-- The operator as it is written. -/
def StepOp.symbol : StepOp → String
  | increment => "++"
  | decrement => "--"

/-- On which side of its variable an operator stands. Before it, the new value is the result; after
it, the old one. -/
inductive Side where
  | before | after
deriving DecidableEq, Repr

/-- Values that are written out in a program. -/
inductive Literal where
  | nil
  | bool (value : Bool)
  | number (value : Float)
  | string (value : String)
deriving DecidableEq, Repr

/-- A name and where it stands. -/
structure Name where
  /-- The name itself. -/
  text : String
  /-- Its place. -/
  span : Span
deriving DecidableEq, Repr

mutual

/-- What has a value. -/
inductive Expr where
  | literal (span : Span) (value : Literal)
  | var (span : Span) (name : String)
  | assign (span : Span) (name : String) (value : Expr)
  | step (span : Span) (side : Side) (op : StepOp) (name : String)
  | group (span : Span) (inner : Expr)
  | unary (span : Span) (op : UnaryOp) (operand : Expr)
  | binary (span : Span) (op : BinaryOp) (left right : Expr)
  | call (span : Span) (callee : Expr) (arguments : List Expr)
  /-- The property of an object. -/
  | property (span : Span) (object : Expr) (name : String)
  /-- The property of an object is given a new value. -/
  | setProperty (span : Span) (object : Expr) (name : String) (value : Expr)
  | this (span : Span)
  /-- A method of the superclass. -/
  | super (span : Span) (name : String)
  | lambda (function : FunDecl)

/-- A function: its name, its parameters and the statements of its body. -/
inductive FunDecl where
  | mk (span : Span) (name : String) (params : List Name) (body : List Stmt)

/-- What is executed. -/
inductive Stmt where
  | expression (span : Span) (value : Expr)
  | print (span : Span) (value : Expr)
  | varDecl (span : Span) (name : String) (value : Option Expr)
  | funDecl (function : FunDecl)
  | classDecl (span : Span) (name : String) (superclass : Option Name) (methods : List FunDecl)
  | block (span : Span) (body : List Stmt)
  | conditional (span : Span) (condition : Expr) (yes : Stmt) (no : Option Stmt)
  | whileLoop (span : Span) (condition : Expr) (body : Stmt)
  | forLoop (span : Span) (init : Option Stmt) (condition : Option Expr) (step : Option Expr)
      (body : Stmt)
  | returns (span : Span) (value : Option Expr)

end

/-- The statements of a source text. -/
abbrev Program := List Stmt

namespace FunDecl

/-- Where the function is written. -/
def span : FunDecl → Span
  | mk span .. => span

/-- The name of the function. -/
def name : FunDecl → String
  | mk _ name .. => name

/-- The parameters, in order. -/
def params : FunDecl → List Name
  | mk _ _ params _ => params

/-- The statements of the body. -/
def body : FunDecl → List Stmt
  | mk _ _ _ body => body

/-- The name of a function that is written as an expression. -/
def anonymous : String := "anonymous"

/-- The name of the method that sets up new instances. -/
def initializer : String := "init"

/-- Whether a method of this declaration sets up new instances. -/
def isInitializer (f : FunDecl) : Bool := f.name == initializer

end FunDecl

/-- Where an expression is written. -/
def Expr.span : Expr → Span
  | literal s _ | var s _ | assign s .. | step s .. | group s _ | unary s .. | binary s ..
  | call s .. | property s .. | setProperty s .. | this s | super s _ => s
  | lambda f => f.span

/-- Where a statement is written. -/
def Stmt.span : Stmt → Span
  | expression s _ | print s _ | varDecl s .. | classDecl s .. | block s _ | conditional s ..
  | whileLoop s .. | forLoop s .. | returns s _ => s
  | funDecl f => f.span

/-- A name read as a variable. -/
def Name.toExpr (n : Name) : Expr := .var n.span n.text

end LoxLang
