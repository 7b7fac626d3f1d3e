import LoxLang.Decimal.Shortest
import LoxLang.Span

/-!
# Tokens

A token is a mark, which has one fixed spelling, or a name, a string or a number. Text that starts
no token has a token too, `Token.unknown`, because a reader may meet it: only the first of several
separate stretches of such text is reported, and the next is passed on as it is.
-/

namespace LoxLang

/-- The tokens with a fixed spelling: brackets, separators, operators and keywords. -/
inductive Mark where
  | leftParen | rightParen | leftBrace | rightBrace
  | comma | dot | minus | plus | semicolon | slash | star
  | bang | bangEqual | equal | equalEqual
  | greater | greaterEqual | less | lessEqual
  | minusMinus | plusPlus
  | andWord | classWord | elseWord | falseWord | forWord | funWord | ifWord | nilWord
  | orWord | printWord | returnWord | superWord | thisWord | trueWord | varWord | whileWord
deriving DecidableEq, Repr, Inhabited

/-- How a mark is shown. The keyword of functions has two spellings and is shown by the shorter. -/
def Mark.spelling : Mark → String
  | leftParen => "("
  | rightParen => ")"
  | leftBrace => "\x7b"
  | rightBrace => "\x7d"
  | comma => ","
  | dot => "."
  | minus => "-"
  | plus => "+"
  | semicolon => ";"
  | slash => "/"
  | star => "*"
  | bang => "!"
  | bangEqual => "!="
  | equal => "="
  | equalEqual => "=="
  | greater => ">"
  | greaterEqual => ">="
  | less => "<"
  | lessEqual => "<="
  | minusMinus => "--"
  | plusPlus => "++"
  | andWord => "and"
  | classWord => "class"
  | elseWord => "else"
  | falseWord => "false"
  | forWord => "for"
  | funWord => "fn"
  | ifWord => "if"
  | nilWord => "nil"
  | orWord => "or"
  | printWord => "print"
  | returnWord => "return"
  | superWord => "super"
  | thisWord => "this"
  | trueWord => "true"
  | varWord => "var"
  | whileWord => "while"

/-- The keyword that a word spells. -/
def Mark.ofWord? (word : List Char) : Option Mark :=
  match String.ofList word with
  | "and" => some andWord
  | "class" => some classWord
  | "else" => some elseWord
  | "false" => some falseWord
  | "for" => some forWord
  | "fn" => some funWord
  | "fun" => some funWord
  | "if" => some ifWord
  | "nil" => some nilWord
  | "or" => some orWord
  | "print" => some printWord
  | "return" => some returnWord
  | "super" => some superWord
  | "this" => some thisWord
  | "true" => some trueWord
  | "var" => some varWord
  | "while" => some whileWord
  | _ => none

/-- The smallest units of a program. -/
inductive Token where
  | mark (mark : Mark)
  | identifier (name : String)
  /-- A string literal, with the text between its quotes. -/
  | string (content : String)
  | number (value : Float)
  /-- Text that starts no token. -/
  | unknown
deriving DecidableEq, Repr, Inhabited

namespace Token

/-- A token as messages show it. -/
def text : Token → String
  | mark m => m.spelling
  | identifier name => name
  | string content => "\"" ++ content ++ "\""
  | number value => Decimal.ofFloat value
  | unknown => "<error>"

/-- Whether the token is this mark. -/
def isMark (m : Mark) : Token → Bool
  | mark n => m == n
  | _ => false

/-- Whether the token is a name. -/
def isIdentifier : Token → Bool
  | identifier _ => true
  | _ => false

/-- Whether the token stands for text that starts no token. -/
def isUnknown : Token → Bool
  | unknown => true
  | _ => false

end Token

/-- A token with the text it was read from and its place. -/
structure Lexeme where
  /-- What the text was read as. -/
  token : Token
  /-- The text itself. -/
  text : List Char
  /-- Where it stands. -/
  span : Span
deriving DecidableEq, Repr, Inhabited

end LoxLang
