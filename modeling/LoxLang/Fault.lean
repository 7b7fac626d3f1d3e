import LoxLang.Span
import LoxLang.Text.Quoted

/-!
# What can be wrong with a program

A fault is a cause together with the place it is charged to. Causes carry what their message needs
and nothing else; `Cause.message` is the only place where wordings stand.

Faults come on two tracks. Static faults are found by reading the text and by working out its
scopes, so a program with one never starts. All others happen while a program runs, and the first
one ends it. `Cause.isStatic` tells the tracks apart. Names are on both: a name that is not bound
is noticed only when it is looked up.
-/

namespace LoxLang

/-- The groups of causes, by what went wrong. -/
inductive Category where
  | attribute
  | channel
  | name
  | recursion
  | grammar
  | type
deriving DecidableEq, Repr

/-- The word that opens every message of the group. -/
def Category.label : Category → String
  | .attribute => "AttributeError"
  | .channel => "IOError"
  | .name => "NameError"
  | .recursion => "RecursionError"
  | .grammar => "SyntaxError"
  | .type => "TypeError"

/-- Why a program was refused or stopped. -/
inductive Cause where
  /-- A property that the object or class does not have. -/
  | noSuchAttribute (owner name : String)
  /-- A property of a value that is no instance. -/
  | notAnInstance (type name : String)
  | unreadable (file : String)
  | unwritable (file : String)
  /-- A variable read while its own declaration is still computing its value. -/
  | readInOwnInitializer (name : String)
  | alreadyDefined (name : String)
  | notDefined (name : String)
  | callsTooDeep (limit : Nat)
  | inheritsFromItself (name : String)
  | invalidAssignmentTarget
  | returnOutsideFunction
  | valueFromInitializer
  | superOutsideClass
  | superWithoutSuperclass (name : String)
  | thisOutsideClass
  | tooManyArguments
  | tooManyParameters
  /-- Text that starts no token. -/
  | unexpectedInput (text : String)
  /-- The text ends where one of `expected` should follow. -/
  | unexpectedEnd (expected : List String)
  /-- A token stands where one of `expected` should. -/
  | unexpectedToken (token : String) (expected : List String)
  | unterminatedString
  | arityMismatch (name : String) (expected got : Nat)
  | notCallable (type : String)
  | superclassNotAClass (type : String)
  | unsupportedOperands (operator left right : String)
  | unsupportedOperand (operator operand : String)
deriving DecidableEq, Repr

namespace Cause

/-- The most arguments of a call, and the most parameters of a function. -/
def listLimit : Nat := 255

/-- The group of a cause. -/
def category : Cause → Category
  | noSuchAttribute .. | notAnInstance .. => .attribute
  | unreadable _ | unwritable _ => .channel
  | readInOwnInitializer _ | alreadyDefined _ | notDefined _ => .name
  | callsTooDeep _ => .recursion
  | inheritsFromItself _ | invalidAssignmentTarget | returnOutsideFunction
  | valueFromInitializer | superOutsideClass | superWithoutSuperclass _ | thisOutsideClass
  | tooManyArguments | tooManyParameters | unexpectedInput _ | unexpectedEnd _
  | unexpectedToken .. | unterminatedString => .grammar
  | arityMismatch .. | notCallable _ | superclassNotAClass _ | unsupportedOperands ..
  | unsupportedOperand .. => .type

open Text in
/-- What is wrong, in words. Names, types and lexemes are quoted; operators are not. -/
def description : Cause → String
  | noSuchAttribute owner name => s!"{quoted owner} object has no attribute {quoted name}"
  | notAnInstance type _ => s!"only instances have properties, not {quoted type}"
  | unreadable file => s!"unable to read from file: {quoted file}"
  | unwritable file => s!"unable to write to file: {quoted file}"
  | readInOwnInitializer name =>
    s!"cannot read local variable {quoted name} in its own initializer"
  | alreadyDefined name => s!"name {quoted name} is already defined in this scope"
  | notDefined name => s!"name {quoted name} is not defined"
  | callsTooDeep limit => s!"maximum call depth of {limit} exceeded"
  | inheritsFromItself name => s!"class {quoted name} cannot inherit from itself"
  | invalidAssignmentTarget => "invalid assignment target"
  | returnOutsideFunction => "\"return\" outside function"
  | valueFromInitializer => "\"init\" cannot return a value"
  | superOutsideClass => "\"super\" used outside class"
  | superWithoutSuperclass name =>
    "\"super\" used in class " ++ quoted name ++ " with no superclass"
  | thisOutsideClass => "\"this\" used outside class"
  | tooManyArguments => s!"cannot have more than {listLimit} arguments"
  | tooManyParameters => s!"cannot have more than {listLimit} parameters"
  | unexpectedInput text => s!"unexpected input: {quoted text}"
  | unexpectedEnd _ => "unexpected end of file"
  | unexpectedToken token _ => s!"unexpected {quoted token}"
  | unterminatedString => "unterminated string"
  | arityMismatch name expected got =>
    s!"{name}() takes {expected} arguments but {got} were given"
  | notCallable type => s!"{quoted type} object is not callable"
  | superclassNotAClass type => "superclass should be of type \"class\", not " ++ quoted type
  | unsupportedOperands operator left right =>
    s!"unsupported operand type(s) for {operator}: {quoted left} and {quoted right}"
  | unsupportedOperand operator operand =>
    s!"unsupported operand type for {operator}: {quoted operand}"

/-- The group of the cause and what is wrong. -/
def message (c : Cause) : String :=
  c.category.label ++ ": " ++ c.description

/-- Whether the cause is found before a program starts. -/
def isStatic (c : Cause) : Bool :=
  match c with
  | readInOwnInitializer _ | alreadyDefined _ => true
  | c => c.category == .grammar

/-- What could have stood at the place of the fault, for the causes that know. -/
def expected? : Cause → Option (List String)
  | unexpectedEnd expected | unexpectedToken _ expected => some expected
  | _ => none

end Cause

/-- A cause and the place it is charged to. -/
structure Fault where
  /-- What is wrong. -/
  cause : Cause
  /-- Where. -/
  span : Span
deriving DecidableEq, Repr

namespace Fault

/-- Whether the fault is found before a program starts. -/
def isStatic (f : Fault) : Bool := f.cause.isStatic

/-- The same fault in a text that is read `offset` bytes later. -/
def shift (offset : Nat) (f : Fault) : Fault := { f with span := f.span.shift offset }

end Fault

end LoxLang
