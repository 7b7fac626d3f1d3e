import LoxLang.Decimal.Shortest
import LoxLang.Fault
import LoxLang.Program

/-!
# Values

Numbers, strings and truth values are what they are. Functions, classes and instances have an
identity besides: they are equal only to themselves, so each carries the number under which it was
made.

What never changes after it was made is part of the value: the declaration and the scope of a
function, the name, the methods and the superclass of a class, the class of an instance. A
superclass is made before its subclasses, so a chain of superclasses is a finite tree and looking
a method up is recursion on it. What does change, the variables of a scope and the fields of an
instance, is kept elsewhere and found by number.
-/

namespace LoxLang

/-! ### Scopes and functions -/

/-- The number of a frame, which holds the variables of one scope while a program runs. -/
abbrev FrameId := Nat

/-- The frames that are visible at a place: its own, and those around it from the inside out. -/
structure Chain where
  /-- The innermost frame. -/
  frame : FrameId
  /-- The frames around it, the nearest first. -/
  outer : List FrameId
deriving DecidableEq, Repr

namespace Chain

/-- All frames of the chain, innermost first. -/
def frames (c : Chain) : List FrameId := c.frame :: c.outer

/-- The frame that is `depth` hops up the chain. -/
def ancestor? (c : Chain) (depth : Nat) : Option FrameId := c.frames[depth]?

/-- A new innermost frame. -/
def push (frame : FrameId) (c : Chain) : Chain := ⟨frame, c.frames⟩

end Chain

/-- A function and the scope it was written in. -/
structure Closure where
  /-- The function. -/
  function : FunDecl
  /-- The frames that are visible in it. -/
  scope : Chain
  /-- Whether it sets up instances, and so returns the one it was called on. -/
  isInitializer : Bool

namespace Closure

/-- How many arguments the function takes. -/
def arity (c : Closure) : Nat := c.function.params.length

/-- The function seen as a method of what a new innermost frame binds. -/
def bind (frame : FrameId) (c : Closure) : Closure := { c with scope := c.scope.push frame }

end Closure

/-! ### Classes -/

/-- A class: its number, its name, its superclass and its methods, the latest first. -/
inductive Class where
  | mk (id : Nat) (name : String) (superclass : Option Class) (methods : List (String × Closure))

namespace Class

/-- The number under which the class was made. -/
def id : Class → Nat
  | mk id .. => id

/-- The name of the class. -/
def name : Class → String
  | mk _ name .. => name

/-- The methods that a class declares itself. -/
def methods : Class → List (String × Closure)
  | mk _ _ _ methods => methods

/-- The superclass. -/
def superclass : Class → Option Class
  | mk _ _ superclass _ => superclass

/-- The method of this name: the class's own, or else that of the nearest class above it. -/
def method? (name : String) : Class → Option Closure
  | mk _ _ none methods => methods.lookup name
  | mk _ _ (some above) methods =>
    match methods.lookup name with
    | some method => some method
    | none => above.method? name

/-- The method that sets up new instances. -/
def initializer? (c : Class) : Option Closure := c.method? FunDecl.initializer

/-- How many arguments a new instance takes. -/
def arity (c : Class) : Nat := c.initializer?.elim 0 Closure.arity

end Class

/-! ### Values -/

/-- The functions that every program finds in its global scope. -/
inductive Native where
  /-- The time in seconds. -/
  | clock
  /-- The next line of the input. -/
  | input
deriving DecidableEq, Repr

/-- The name of a given function. -/
def Native.name : Native → String
  | clock => "clock"
  | input => "input"

/-- All given functions. -/
def Native.all : List Native := [clock, input]

/-- What an expression stands for. -/
inductive Value where
  | nil
  | bool (value : Bool)
  | number (value : Float)
  | string (value : String)
  | native (native : Native)
  /-- A function with its number. -/
  | function (id : Nat) (closure : Closure)
  | cls (cls : Class)
  /-- An instance with its number. -/
  | object (id : Nat) (cls : Class)

namespace Value

/-- The value of a literal. -/
def ofLiteral : Literal → Value
  | .nil => nil
  | .bool b => bool b
  | .number x => number x
  | .string s => string s

/-- Whether a condition with this value holds: only `nil` and `false` do not. -/
def isTruthy : Value → Bool
  | nil | bool false => false
  | _ => true

/-- The type of a value, as messages show it. An instance is of the type of its class. -/
def typeName : Value → String
  | nil => "nil"
  | bool _ => "bool"
  | number _ => "number"
  | string _ => "string"
  | native _ | function .. => "function"
  | cls _ => "class"
  | object _ c => c.name

/-- A value as it is printed. -/
def display : Value → String
  | nil => "nil"
  | bool true => "true"
  | bool false => "false"
  | number x => Decimal.ofFloat x
  | string s => s
  | native _ => "<native fn>"
  | function _ c => s!"<fn {c.function.name}>"
  | cls c => c.name
  | object _ c => s!"{c.name} instance"

/-- Whether two values are equal. Numbers compare as floating point numbers do, so what is not a
number differs from itself. -/
def equals : Value → Value → Bool
  | nil, nil => true
  | bool a, bool b => a == b
  | number x, number y => x == y
  | string s, string t => s == t
  | native a, native b => a == b
  | function i _, function j _ => i == j
  | cls c, cls d => c.id == d.id
  | object i _, object j _ => i == j
  | _, _ => false

/-- Whether a value can be called at all. -/
def callable : Value → Except Cause Unit
  | native _ | function .. | cls _ => .ok ()
  | v => .error (.notCallable v.typeName)

/-- How a callable value is named in messages, and how many arguments it takes. -/
def signature : Value → Except Cause (String × Nat)
  | native n => .ok (n.name, 0)
  | function _ c => .ok (c.function.name, c.arity)
  | cls c => .ok (c.name, c.arity)
  | v => .error (.notCallable v.typeName)

/-- Whether a value can be called with this many arguments. -/
def accepts (v : Value) (count : Nat) : Except Cause Unit := do
  let (name, arity) ← v.signature
  if arity = count then return () else throw (.arityMismatch name arity count)

/-- The instance whose property `name` is meant. -/
def asObject (name : String) : Value → Except Cause (Nat × Class)
  | object id c => .ok (id, c)
  | v => .error (.notAnInstance v.typeName name)

/-! ### Operators -/

/-- The result of an operator before one operand. -/
def unary (op : UnaryOp) (v : Value) : Except Cause Value :=
  match op, v with
  | .negate, number x => .ok (number (-x))
  | .negate, v => .error (.unsupportedOperand op.symbol v.typeName)
  | .not, v => .ok (bool !v.isTruthy)

/-- The result of an operator between two operands. Only numbers are ordered, only numbers and
strings are added, and all values are compared for equality. The logical operators have their
result when the left operand does not decide it. -/
def binary (op : BinaryOp) (left right : Value) : Except Cause Value :=
  match op, left, right with
  | .or, _, v | .and, _, v => .ok v
  | .equal, a, b => .ok (bool (a.equals b))
  | .notEqual, a, b => .ok (bool !a.equals b)
  | .add, string s, string t => .ok (string (s ++ t))
  | .add, number x, number y => .ok (number (x + y))
  | .subtract, number x, number y => .ok (number (x - y))
  | .multiply, number x, number y => .ok (number (x * y))
  | .divide, number x, number y => .ok (number (x / y))
  | .greater, number x, number y => .ok (bool (x > y))
  | .greaterEqual, number x, number y => .ok (bool (x ≥ y))
  | .less, number x, number y => .ok (bool (x < y))
  | .lessEqual, number x, number y => .ok (bool (x ≤ y))
  | op, a, b => .error (.unsupportedOperands op.symbol a.typeName b.typeName)

/-- Whether the left operand of a logical operator is its result already. -/
def decides (op : BinaryOp) (left : Value) : Bool :=
  match op with
  | .or => left.isTruthy
  | .and => !left.isTruthy
  | _ => false

/-- The number one step up or down. -/
def stepped (op : StepOp) (v : Value) : Except Cause Value :=
  match op, v with
  | .increment, number x => .ok (number (x + 1))
  | .decrement, number x => .ok (number (x - 1))
  | op, v => .error (.unsupportedOperand op.symbol v.typeName)

end Value

end LoxLang
