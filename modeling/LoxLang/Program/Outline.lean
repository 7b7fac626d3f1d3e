import LoxLang.Decimal.Shortest
import LoxLang.Program

/-!
# Outlines of programs

The outline of a program shows its tree with all spans. A node is written between parentheses: its
kind and its span, and then its parts, with a single space before each. Lists stand in square
brackets, an optional part that is missing is an underscore, and strings are quoted the way JSON
quotes them.
-/

namespace LoxLang.Outline

/-- A character inside a quoted string. -/
def escape (c : Char) : List Char :=
  match c with
  | '"' => ['\\', '"']
  | '\\' => ['\\', '\\']
  | '\x08' => ['\\', 'b']
  | '\x0c' => ['\\', 'f']
  | '\n' => ['\\', 'n']
  | '\r' => ['\\', 'r']
  | '\t' => ['\\', 't']
  | c =>
    if c.toNat < 0x20 then
      ['\\', 'u', '0', '0'] ++ [Nat.digitChar (c.toNat / 16), Nat.digitChar (c.toNat % 16)]
    else [c]

/-- A string between double quotes. -/
def quoted (s : String) : String := String.ofList ('"' :: s.toList.flatMap escape ++ ['"'])

/-- A span as the offsets of its ends. -/
def ofSpan (s : Span) : String := s!"{s.start}-{s.stop}"

/-- A node with its parts. -/
def node (kind : String) (span : Span) (parts : List String) : String :=
  "(" ++ " ".intercalate ((kind ++ "@" ++ ofSpan span) :: parts) ++ ")"

/-- Several parts as one. -/
def list (items : List String) : String := "[" ++ " ".intercalate items ++ "]"

/-- The text of a missing part. -/
def missing : String := "_"

/-- A literal at its place. -/
def ofLiteral (span : Span) : Literal → String
  | .nil => node "nil" span []
  | .bool value => node "bool" span [toString value]
  | .number value => node "num" span [Decimal.ofFloat value]
  | .string value => node "str" span [quoted value]

/-- A parameter with its place. -/
def ofParam (n : Name) : String := n.text ++ "@" ++ ofSpan n.span

/-- The word for the side of an operator. -/
def ofSide : Side → String
  | .before => "pre"
  | .after => "post"

mutual

/-- The outline of an expression. -/
def ofExpr : Expr → String
  | .literal span value => ofLiteral span value
  | .var span name => node "name" span [name]
  | .assign span name value => node "assign" span [name, ofExpr value]
  | .step span side op name => node "update" span [ofSide side, op.symbol, name]
  | .group span inner => node "group" span [ofExpr inner]
  | .unary span op operand => node "prefix" span [op.symbol, ofExpr operand]
  | .binary span op left right => node "infix" span [op.symbol, ofExpr left, ofExpr right]
  | .call span callee arguments => node "call" span [ofExpr callee, list (ofExprs arguments)]
  | .property span object name => node "get" span [ofExpr object, name]
  | .setProperty span object name value => node "set" span [ofExpr object, name, ofExpr value]
  | .this span => node "this" span []
  | .super span name => node "super" span [name]
  | .lambda function => ofFunction "lambda" function

/-- The outlines of several expressions. -/
def ofExprs : List Expr → List String
  | [] => []
  | e :: rest => ofExpr e :: ofExprs rest

/-- The outline of an expression that may be missing. -/
def ofExpr? : Option Expr → String
  | none => missing
  | some e => ofExpr e

/-- The outline of a function, under a word for what kind of function it is. -/
def ofFunction (kind : String) : FunDecl → String
  | .mk span name params body =>
    node kind span [name, list (params.map ofParam), list (ofStmts body)]

/-- The outlines of the methods of a class. -/
def ofMethods : List FunDecl → List String
  | [] => []
  | f :: rest => ofFunction "method" f :: ofMethods rest

/-- The outline of a statement. -/
def ofStmt : Stmt → String
  | .expression span value => node "expr" span [ofExpr value]
  | .print span value => node "print" span [ofExpr value]
  | .varDecl span name value => node "var" span [name, ofExpr? value]
  | .funDecl function => ofFunction "fun" function
  | .classDecl span name superclass methods =>
    let parent := superclass.elim missing fun n ↦ node "name" n.span [n.text]
    node "class" span [name, parent, list (ofMethods methods)]
  | .block span body => node "block" span (ofStmts body)
  | .conditional span condition yes no =>
    node "if" span [ofExpr condition, ofStmt yes, ofStmt? no]
  | .whileLoop span condition body => node "while" span [ofExpr condition, ofStmt body]
  | .forLoop span init condition step body =>
    node "for" span [ofStmt? init, ofExpr? condition, ofExpr? step, ofStmt body]
  | .returns span value => node "return" span [ofExpr? value]

/-- The outlines of several statements. -/
def ofStmts : List Stmt → List String
  | [] => []
  | s :: rest => ofStmt s :: ofStmts rest

/-- The outline of a statement that may be missing. -/
def ofStmt? : Option Stmt → String
  | none => missing
  | some s => ofStmt s

end

end LoxLang.Outline
