import LoxLang.Decimal.Shortest
import LoxLang.Program
import LoxLang.Text.Quoted

/-!
# Postfix notation

In postfix notation operands come before their operator, so no brackets are needed: an expression
is a list of words, and parentheses of the program leave no trace in it. The number of arguments
stands in the word of a call. Functions are shown by their names alone.
-/

namespace LoxLang

/-- A literal as one word. Strings are quoted. -/
def Literal.postfixWord : Literal → String
  | nil => "nil"
  | bool true => "true"
  | bool false => "false"
  | number x => Decimal.ofFloat x
  | string s => Text.quoted s

/-- The word of an operator before one operand. A minus sign between operands means subtraction, so
negation has a word of its own. -/
def UnaryOp.postfixWord : UnaryOp → String
  | negate => "neg"
  | not => "!"

mutual

/-- The words of an expression, operands first. -/
def Expr.postfixWords : Expr → List String
  | .literal _ value => [value.postfixWord]
  | .var _ name => [name]
  | .assign _ name value => value.postfixWords ++ [name, "="]
  | .step _ .before op name => [op.symbol ++ name]
  | .step _ .after op name => [name ++ op.symbol]
  | .group _ inner => inner.postfixWords
  | .unary _ op operand => operand.postfixWords ++ [op.postfixWord]
  | .binary _ op left right => left.postfixWords ++ right.postfixWords ++ [op.symbol]
  | .call _ callee arguments =>
    postfixWordsOf arguments ++ callee.postfixWords ++ [s!"call/{arguments.length}"]
  | .property _ object name => object.postfixWords ++ ["." ++ name]
  | .setProperty _ object name value =>
    object.postfixWords ++ value.postfixWords ++ ["." ++ name ++ "="]
  | .this _ => ["this"]
  | .super _ name => ["super." ++ name]
  | .lambda function => [s!"<fn {function.name}>"]

/-- The words of several expressions, one after another. -/
def postfixWordsOf : List Expr → List String
  | [] => []
  | e :: rest => e.postfixWords ++ postfixWordsOf rest

end

/-- An expression in postfix notation, its words separated by single spaces. -/
def Expr.toPostfix (e : Expr) : String := " ".intercalate e.postfixWords

/-- The expressions that are statements of their own at the top of a program, in postfix
notation. -/
def Program.postfixLines (p : Program) : List String :=
  p.filterMap fun
    | .expression _ value => some value.toPostfix
    | _ => none

end LoxLang
