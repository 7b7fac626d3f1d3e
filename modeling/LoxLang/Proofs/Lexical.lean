import LoxLang.World

/-!
# A machine with lexical environments

A second machine for the same programs, which knows nothing of distances. It carries an environment
(`Lexical.Env`): a map from the names of local variables to cells, which is never changed, only
extended. Each declaration of a local variable makes a new cell and extends the environment with it;
the cell is empty until the variable has its first value, and reading it before is the anomaly
`missingLocal`. A function keeps the environment in which it was made. A name that the environment
does not hold is a global variable, found by name in one table. In a method, `this` and `super` are
names of the environment like any others.

What has nothing to do with variables is as it is for `State`: the same pending work, the same
requests, the same faults.
-/

namespace LoxLang

namespace Lexical

/-! ### Environments and values -/

/-- The variables that are visible at a place. -/
structure Env where
  /-- The local variables with their cells, the latest first. -/
  names : List (String × Nat)
  /-- Whether a declaration at this place is local. -/
  isLocal : Bool

namespace Env

/-- The cell of a local variable. -/
def find? (e : Env) (name : String) : Option Nat := e.names.lookup name

/-- With one more local variable. -/
def bind (name : String) (cell : Nat) (e : Env) : Env :=
  { names := (name, cell) :: e.names, isLocal := true }

/-- The same variables, in an inner scope. -/
def inner (e : Env) : Env := { e with isLocal := true }

/-- No local variables, in the outermost scope. -/
def top : Env := { names := [], isLocal := false }

end Env

/-- A function and the environment in which it was made. -/
structure Closure where
  /-- The function. -/
  function : FunDecl
  /-- The variables that are visible in it. -/
  env : Env
  /-- Whether it sets up instances. -/
  isInitializer : Bool

/-- How many arguments the function takes. -/
def Closure.arity (c : Closure) : Nat := c.function.params.length

/-- A class: its number, its name, its superclass and its methods, the latest first. -/
inductive Class where
  | mk (id : Nat) (name : String) (superclass : Option Class) (methods : List (String × Closure))

namespace Class

/-- The number under which the class was made. -/
def id : Class → Nat
  | mk id .. => id

/-- The name of the class. -/
def name : Class → String
  | mk _ name .. => name

/-- The method of this name: the class's own, or else that of the nearest class above it. -/
def method? (name : String) : Class → Option Closure
  | mk _ _ none methods => methods.lookup name
  | mk _ _ (some above) methods =>
    match methods.lookup name with
    | some method => some method
    | none => above.method? name

/-- The method that sets up new instances. -/
def initializer? (c : Class) : Option Closure := c.method? FunDecl.initializer

/-- How many arguments a new instance takes. -/
def arity (c : Class) : Nat := c.initializer?.elim 0 Closure.arity

end Class

/-- What an expression stands for. -/
inductive Value where
  | nil
  | bool (value : Bool)
  | number (value : Float)
  | string (value : String)
  | native (native : Native)
  | function (id : Nat) (closure : Closure)
  | cls (cls : Class)
  | object (id : Nat) (cls : Class)

namespace Value

/-- The value of a literal. -/
def ofLiteral : Literal → Value
  | .nil => nil
  | .bool b => bool b
  | .number x => number x
  | .string s => string s

/-- Whether a condition with this value holds. -/
def isTruthy : Value → Bool
  | nil | bool false => false
  | _ => true

/-- The type of a value, as messages show it. -/
def typeName : Value → String
  | nil => "nil"
  | bool _ => "bool"
  | number _ => "number"
  | string _ => "string"
  | native _ | function .. => "function"
  | cls _ => "class"
  | object _ c => c.name

/-- A value as it is printed. -/
def display : Value → String
  | nil => "nil"
  | bool true => "true"
  | bool false => "false"
  | number x => Decimal.ofFloat x
  | string s => s
  | native _ => "<native fn>"
  | function _ c => s!"<fn {c.function.name}>"
  | cls c => c.name
  | object _ c => s!"{c.name} instance"

/-- Whether two values are equal. -/
def equals : Value → Value → Bool
  | nil, nil => true
  | bool a, bool b => a == b
  | number x, number y => x == y
  | string s, string t => s == t
  | native a, native b => a == b
  | function i _, function j _ => i == j
  | cls c, cls d => c.id == d.id
  | object i _, object j _ => i == j
  | _, _ => false

/-- Whether a value can be called at all. -/
def callable : Value → Except Cause Unit
  | native _ | function .. | cls _ => .ok ()
  | v => .error (.notCallable v.typeName)

/-- How a callable value is named in messages, and how many arguments it takes. -/
def signature : Value → Except Cause (String × Nat)
  | native n => .ok (n.name, 0)
  | function _ c => .ok (c.function.name, c.arity)
  | cls c => .ok (c.name, c.arity)
  | v => .error (.notCallable v.typeName)

/-- Whether a value can be called with this many arguments. -/
def accepts (v : Value) (count : Nat) : Except Cause Unit := do
  let (name, arity) ← v.signature
  if arity = count then return () else throw (.arityMismatch name arity count)

/-- The instance whose property `name` is meant. -/
def asObject (name : String) : Value → Except Cause (Nat × Class)
  | object id c => .ok (id, c)
  | v => .error (.notAnInstance v.typeName name)

/-- The result of an operator before one operand. -/
def unary (op : UnaryOp) (v : Value) : Except Cause Value :=
  match op, v with
  | .negate, number x => .ok (number (-x))
  | .negate, v => .error (.unsupportedOperand op.symbol v.typeName)
  | .not, v => .ok (bool !v.isTruthy)

/-- The result of an operator between two operands. -/
def binary (op : BinaryOp) (left right : Value) : Except Cause Value :=
  match op, left, right with
  | .or, _, v | .and, _, v => .ok v
  | .equal, a, b => .ok (bool (a.equals b))
  | .notEqual, a, b => .ok (bool !a.equals b)
  | .add, string s, string t => .ok (string (s ++ t))
  | .add, number x, number y => .ok (number (x + y))
  | .subtract, number x, number y => .ok (number (x - y))
  | .multiply, number x, number y => .ok (number (x * y))
  | .divide, number x, number y => .ok (number (x / y))
  | .greater, number x, number y => .ok (bool (x > y))
  | .greaterEqual, number x, number y => .ok (bool (x ≥ y))
  | .less, number x, number y => .ok (bool (x < y))
  | .lessEqual, number x, number y => .ok (bool (x ≤ y))
  | op, a, b => .error (.unsupportedOperands op.symbol a.typeName b.typeName)

/-- Whether the left operand of a logical operator is its result already. -/
def decides (op : BinaryOp) (left : Value) : Bool :=
  match op with
  | .or => left.isTruthy
  | .and => !left.isTruthy
  | _ => false

/-- The number one step up or down. -/
def stepped (op : StepOp) (v : Value) : Except Cause Value :=
  match op, v with
  | .increment, number x => .ok (number (x + 1))
  | .decrement, number x => .ok (number (x - 1))
  | op, v => .error (.unsupportedOperand op.symbol v.typeName)

end Value

/-! ### What is pending -/

mutual

/-- What is done with a value. -/
inductive AfterValue where
  | discard (next : AfterStmt)
  | print (span : Span) (next : AfterStmt)
  | define (name : String) (next : AfterStmt)
  | inherit (span : Span) (name : String) (methods : List FunDecl) (next : AfterStmt)
  | choose (yes : Stmt) (no : Option Stmt) (next : AfterStmt)
  | test (loop : Loop) (next : AfterStmt)
  | round (loop : Loop) (next : AfterStmt)
  | returns (next : AfterStmt)
  | assign (span : Span) (name : String) (next : AfterValue)
  | unary (span : Span) (op : UnaryOp) (next : AfterValue)
  | left (span : Span) (op : BinaryOp) (right : Expr) (next : AfterValue)
  | right (span : Span) (op : BinaryOp) (left : Value) (next : AfterValue)
  | callee (span : Span) (arguments : List Expr) (next : AfterValue)
  | argument (span : Span) (callee : Value) (known : List Value) (rest : List Expr)
      (next : AfterValue)
  | property (span : Span) (name : String) (next : AfterValue)
  | target (span : Span) (name : String) (value : Expr) (next : AfterValue)
  | field (object : Nat) (name : String) (next : AfterValue)
  | construct (object : Value) (next : AfterValue)

/-- What is done when a statement has ended. -/
inductive AfterStmt where
  | done
  | sequence (rest : List Stmt) (next : AfterStmt)
  /-- The environment before the statement is restored. -/
  | leave (env : Env) (next : AfterStmt)
  /-- It was the body of a function, which was called in that environment. -/
  | leaveCall (env : Env) (closure : Closure) (next : AfterValue)
  | enterLoop (loop : Loop) (next : AfterStmt)
  | endRound (loop : Loop) (next : AfterStmt)

end

/-- How a statement ends. -/
inductive Flow where
  | normal
  | returned (value : Value)

/-- What the machine does next. -/
inductive Control where
  | execute (stmt : Stmt) (next : AfterStmt)
  | evaluate (expr : Expr) (next : AfterValue)
  | value (value : Value) (next : AfterValue)
  | ended (flow : Flow) (next : AfterStmt)
  | stuck (trouble : Trouble)

/-! ### Memory -/

/-- A table with a new entry. -/
def update (t : String → Option Value) (name : String) (v : Value) : String → Option Value :=
  fun other ↦ if other = name then some v else t other

/-- What changes while a program runs. -/
structure Memory where
  /-- What the local variables hold. -/
  cells : Array (Option Value)
  /-- The global variables. -/
  globals : String → Option Value
  /-- The fields of each instance. -/
  objects : Array (String → Option Value)
  /-- The number of the next function. -/
  nextFunction : Nat
  /-- The number of the next class. -/
  nextClass : Nat

namespace Memory

/-- The given functions, and nothing else. -/
def initial : Memory :=
  { cells := #[], objects := #[], nextFunction := 0, nextClass := 0
    globals := Native.all.foldl (fun t n ↦ update t n.name (.native n)) fun _ ↦ none }

/-- What a cell holds. -/
def cell (m : Memory) (cell : Nat) : Option Value := m.cells[cell]?.join

/-- A new cell. -/
def allocate (m : Memory) (v : Option Value) : Nat × Memory :=
  (m.cells.size, { m with cells := m.cells.push v })

/-- A cell holds a new value. -/
def fill (m : Memory) (cell : Nat) (v : Value) : Memory :=
  { m with cells := m.cells.modify cell fun _ ↦ some v }

/-- A global variable has a new value. -/
def setGlobal (m : Memory) (name : String) (v : Value) : Memory :=
  { m with globals := update m.globals name v }

/-- The fields of an instance. -/
def fields (m : Memory) (id : Nat) : String → Option Value := m.objects[id]?.getD fun _ ↦ none

/-- A field of an instance has a new value. -/
def setField (m : Memory) (id : Nat) (name : String) (v : Value) : Memory :=
  { m with objects := m.objects.modify id fun t ↦ update t name v }

/-- A new local variable with this value. -/
def extend (m : Memory) (e : Env) (name : String) (v : Option Value) : Env × Memory :=
  let (cell, m) := m.allocate v
  (e.bind name cell, m)

/-- The parameters of a function with their arguments, each a new local variable. -/
def extendAll (m : Memory) (e : Env) : List (Name × Value) → Env × Memory
  | [] => (e, m)
  | (p, v) :: rest =>
    let (e, m) := m.extend e p.text (some v)
    m.extendAll e rest

/-- A new instance without fields. -/
def newObject (m : Memory) (c : Class) : Value × Memory :=
  (.object m.objects.size c, { m with objects := m.objects.push fun _ ↦ none })

/-- A new function. -/
def newFunction (m : Memory) (c : Closure) : Value × Memory :=
  (.function m.nextFunction c, { m with nextFunction := m.nextFunction + 1 })

/-- A function as a method of an instance. -/
def bindMethod (m : Memory) (c : Closure) (this : Value) : Closure × Memory :=
  let (env, m) := m.extend c.env "this" (some this)
  ({ c with env }, m)

/-- A new class. Its methods see `super` if there is a superclass. -/
def newClass (m : Memory) (e : Env) (name : String) (above : Option Class)
    (methods : List FunDecl) : Value × Memory :=
  let (env, m) :=
    match above with
    | none => (e, m)
    | some c => m.extend e "super" (some (.cls c))
  let closures := methods.map fun f ↦
    (f.name, { function := f, env, isInitializer := f.isInitializer : Closure })
  (.cls (.mk m.nextClass name above closures.reverse), { m with nextClass := m.nextClass + 1 })

end Memory

/-- A state of the machine. -/
structure State where
  /-- What is done next. -/
  control : Control
  /-- The variables that are visible now. -/
  env : Env
  /-- How many function bodies are being executed. -/
  depth : Nat
  /-- Everything that changes. -/
  memory : Memory

/-- What one step leads to. -/
inductive Progress where
  | moved (state : State)
  | waiting (request : Request) (resume : request.Reply → State)
  | stopped (ending : Ending) (memory : Memory)

namespace State

/-! ### Ways to go on -/

/-- Stops with a fault. -/
def fault (s : State) (span : Span) (cause : Cause) : State :=
  { s with control := .stuck (.fault ⟨cause, span⟩) }

/-- Stops with an anomaly. -/
def anomaly (s : State) (a : Anomaly) : State := { s with control := .stuck (.anomaly a) }

/-- Goes on with a value. -/
def give (s : State) (v : Value) (next : AfterValue) : State := { s with control := .value v next }

/-- Goes on after a statement. -/
def finish (s : State) (flow : Flow) (next : AfterStmt) : State :=
  { s with control := .ended flow next }

/-- Goes on with a value, or stops with the cause why there is none. -/
def giveOr (s : State) (span : Span) (result : Except Cause Value) (next : AfterValue) : State :=
  match result with
  | .ok v => s.give v next
  | .error cause => s.fault span cause

/-- Begins a round of a loop. -/
def round (s : State) (loop : Loop) (next : AfterStmt) : State :=
  match loop.condition with
  | none => { s with control := .execute loop.body (.endRound loop next) }
  | some condition => { s with control := .evaluate condition (.test loop next) }

/-! ### Variables -/

/-- The value of a variable: what its cell holds if it is local, and else what the global table
has. -/
def lookup (s : State) (span : Span) (name : String) : Except Trouble Value :=
  match s.env.find? name with
  | some cell => (s.memory.cell cell).elim (.error (.anomaly (.missingLocal name))) .ok
  | none => (s.memory.globals name).elim (.error (.fault ⟨.notDefined name, span⟩)) .ok

/-- A variable is read. -/
def read (s : State) (span : Span) (name : String) (next : AfterValue) : State :=
  match s.lookup span name with
  | .ok v => s.give v next
  | .error t => { s with control := .stuck t }

/-- A variable is written; the value of the whole is `result`. -/
def write (s : State) (span : Span) (name : String) (v result : Value) (next : AfterValue) :
    State :=
  match s.env.find? name with
  | some cell => { s with control := .value result next, memory := s.memory.fill cell v }
  | none =>
    if (s.memory.globals name).isSome then
      { s with control := .value result next, memory := s.memory.setGlobal name v }
    else
      s.fault span (.notDefined name)

/-- A variable is stepped up or down. -/
def stepVariable (s : State) (span : Span) (side : Side) (op : StepOp) (name : String)
    (next : AfterValue) : State :=
  match s.lookup span name with
  | .error t => { s with control := .stuck t }
  | .ok old =>
    match old.stepped op with
    | .error cause => s.fault span cause
    | .ok new =>
      let result := match side with | .before => new | .after => old
      s.write span name new result next

/-- A name is declared: a local variable has a new cell from now on. -/
def declare (s : State) (name : String) : State :=
  if s.env.isLocal then
    let (env, memory) := s.memory.extend s.env name none
    { s with env, memory }
  else
    s

/-- A declared name has its first value. -/
def define (s : State) (name : String) (v : Value) : State :=
  match s.env.find? name with
  | some cell => { s with memory := s.memory.fill cell v }
  | none => { s with memory := s.memory.setGlobal name v }

/-! ### Functions and methods -/

/-- A function that is new each time it is evaluated. -/
def giveFunction (s : State) (closure : Closure) (next : AfterValue) : State :=
  let (v, memory) := s.memory.newFunction closure
  { s with control := .value v next, memory }

/-- A method of an instance: a function of its own, in which `this` is the instance. -/
def giveMethod (s : State) (method : Closure) (this : Value) (next : AfterValue) : State :=
  let (bound, memory) := s.memory.bindMethod method this
  { s with memory }.giveFunction bound next

/-- What a name of the environment holds. -/
def holds (s : State) (e : Env) (name : String) : Option Value := (e.find? name).bind s.memory.cell

/-- A method of the superclass is read. -/
def readSuper (s : State) (span : Span) (name : String) (next : AfterValue) : State :=
  match s.holds s.env "super", s.holds s.env "this" with
  | some (.cls above), some (.object id c) =>
    match above.method? name with
    | none => s.fault span (.noSuchAttribute above.name name)
    | some method => s.giveMethod method (.object id c) next
  | _, _ => s.anomaly .superNotAClass

/-- A property of a value is read: a field, or else a method of the class. -/
def readProperty (s : State) (span : Span) (name : String) (v : Value) (next : AfterValue) :
    State :=
  match v.asObject name with
  | .error cause => s.fault span cause
  | .ok (id, c) =>
    match s.memory.fields id name with
    | some v => s.give v next
    | none =>
      match c.method? name with
      | some method => s.giveMethod method (.object id c) next
      | none => s.fault span (.noSuchAttribute c.name name)

/-! ### Calls -/

/-- The body of a function is entered, in its own environment with its parameters. -/
def enter (s : State) (span : Span) (closure : Closure) (arguments : List Value)
    (next : AfterValue) : State :=
  if callLimit ≤ s.depth then
    s.fault span (.callsTooDeep callLimit)
  else
    let (env, memory) :=
      s.memory.extendAll closure.env.inner (closure.function.params.zip arguments)
    { control := .ended .normal (.sequence closure.function.body (.leaveCall s.env closure next))
      env
      depth := s.depth + 1
      memory }

/-- An instance is made, and handed to the initializer of its class if there is one. -/
def construct (s : State) (span : Span) (c : Class) (arguments : List Value) (next : AfterValue) :
    State :=
  let (object, memory) := s.memory.newObject c
  match c.initializer? with
  | none => { s with control := .value object next, memory }
  | some initializer =>
    let (bound, memory) := memory.bindMethod initializer object
    { s with memory }.enter span bound arguments (.construct object next)

/-- A value is called. -/
def call (s : State) (span : Span) (callee : Value) (arguments : List Value) (next : AfterValue) :
    Progress :=
  match callee.accepts arguments.length with
  | .error cause => .moved (s.fault span cause)
  | .ok () =>
    match callee with
    | .native .clock => .waiting .readClock fun time ↦ s.give (.number time) next
    | .native .input =>
      .waiting .readLine fun
        | .line text => s.give (.string text) next
        | .closed => s.give .nil next
        | .invalid => s.fault span (.unreadable standardInput)
    | .function _ closure => .moved (s.enter span closure arguments next)
    | .cls c => .moved (s.construct span c arguments next)
    | v => .moved (s.fault span (.notCallable v.typeName))

/-- A function body has ended: its caller goes on, in its own environment. -/
def leaveCall (s : State) (env : Env) (closure : Closure) (flow : Flow) (next : AfterValue) :
    State :=
  let s := { s with env, depth := s.depth - 1 }
  if closure.isInitializer then
    match s.holds closure.env "this" with
    | some this => s.give this next
    | none => s.anomaly .thisNotInInitializer
  else
    match flow with
    | .normal => s.give .nil next
    | .returned v => s.give v next

/-! ### One step -/

/-- A function is made, in an environment with its own name. -/
def declareFunction (s : State) (function : FunDecl) (next : AfterStmt) : State :=
  let s := s.declare function.name
  let (v, memory) := s.memory.newFunction { function, env := s.env, isInitializer := false }
  ({ s with memory }.define function.name v).finish .normal next

/-- A class is made; its name is declared already. -/
def declareClass (s : State) (name : String) (above : Option Class) (methods : List FunDecl)
    (next : AfterStmt) : State :=
  let (c, memory) := s.memory.newClass s.env name above methods
  ({ s with memory }.define name c).finish .normal next

/-- A class is declared. Its name is bound before its superclass is looked up. -/
def beginClass (s : State) (name : String) (parent : Option Name) (methods : List FunDecl)
    (next : AfterStmt) : State :=
  let s := (s.declare name).define name .nil
  match parent with
  | none => s.declareClass name none methods next
  | some parent =>
    { s with control := .evaluate parent.toExpr (.inherit parent.span name methods next) }

/-- A loop is entered, in a scope of its own. -/
def enterLoop (s : State) (init : Option Stmt) (loop : Loop) (next : AfterStmt) : State :=
  let outer := s.env
  let s := { s with env := outer.inner }
  match init with
  | none => s.round loop (.leave outer next)
  | some init => { s with control := .execute init (.enterLoop loop (.leave outer next)) }

/-- The statement is executed as far as its first expression or its first part. -/
def execute (s : State) (stmt : Stmt) (next : AfterStmt) : State :=
  match stmt with
  | .expression _ value => { s with control := .evaluate value (.discard next) }
  | .print span value => { s with control := .evaluate value (.print span next) }
  | .varDecl _ name none => ((s.declare name).define name .nil).finish .normal next
  | .varDecl _ name (some value) =>
    { s.declare name with control := .evaluate value (.define name next) }
  | .funDecl function => s.declareFunction function next
  | .classDecl _ name parent methods => s.beginClass name parent methods next
  | .block _ body =>
    { s with control := .ended .normal (.sequence body (.leave s.env next)), env := s.env.inner }
  | .conditional _ condition yes no =>
    { s with control := .evaluate condition (.choose yes no next) }
  | .whileLoop _ condition body => s.round ⟨some condition, none, body⟩ next
  | .forLoop _ init condition step body => s.enterLoop init ⟨condition, step, body⟩ next
  | .returns _ none => s.finish (.returned .nil) next
  | .returns _ (some value) => { s with control := .evaluate value (.returns next) }

/-- The expression is evaluated as far as its first part. -/
def evaluate (s : State) (expr : Expr) (next : AfterValue) : State :=
  match expr with
  | .literal _ value => s.give (.ofLiteral value) next
  | .var span name => s.read span name next
  | .assign span name value => { s with control := .evaluate value (.assign span name next) }
  | .step span side op name => s.stepVariable span side op name next
  | .group _ inner => { s with control := .evaluate inner next }
  | .unary span op operand => { s with control := .evaluate operand (.unary span op next) }
  | .binary span op left right => { s with control := .evaluate left (.left span op right next) }
  | .call span callee arguments =>
    { s with control := .evaluate callee (.callee span arguments next) }
  | .property span object name => { s with control := .evaluate object (.property span name next) }
  | .setProperty span object name value =>
    { s with control := .evaluate object (.target span name value next) }
  | .this span => s.read span "this" next
  | .super span name => s.readSuper span name next
  | .lambda function => s.giveFunction { function, env := s.env, isInitializer := false } next

/-- The next argument of a call is evaluated, or the call is made if there is none. -/
def nextArgument (s : State) (span : Span) (callee : Value) (known : List Value)
    (rest : List Expr) (next : AfterValue) : Progress :=
  match rest with
  | [] => s.call span callee known.reverse next
  | e :: rest => .moved { s with control := .evaluate e (.argument span callee known rest next) }

/-- The pending work goes on with the value that it waits for. -/
def accept (s : State) (v : Value) (pending : AfterValue) : Progress :=
  match pending with
  | .discard next => .moved (s.finish .normal next)
  | .print span next =>
    .waiting (.writeLine v.display) fun
      | true => s.finish .normal next
      | false => s.fault span (.unwritable standardOutput)
  | .define name next => .moved ((s.define name v).finish .normal next)
  | .inherit span name methods next =>
    match v with
    | .cls above => .moved (s.declareClass name (some above) methods next)
    | v => .moved (s.fault span (.superclassNotAClass v.typeName))
  | .choose yes no next =>
    if v.isTruthy then .moved { s with control := .execute yes next }
    else
      match no with
      | some no => .moved { s with control := .execute no next }
      | none => .moved (s.finish .normal next)
  | .test loop next =>
    if v.isTruthy then .moved { s with control := .execute loop.body (.endRound loop next) }
    else .moved (s.finish .normal next)
  | .round loop next => .moved (s.round loop next)
  | .returns next => .moved (s.finish (.returned v) next)
  | .assign span name next => .moved (s.write span name v v next)
  | .unary span op next => .moved (s.giveOr span (v.unary op) next)
  | .left span op right next =>
    if v.decides op then .moved (s.give v next)
    else .moved { s with control := .evaluate right (.right span op v next) }
  | .right span op left next => .moved (s.giveOr span (left.binary op v) next)
  | .callee span arguments next =>
    match v.callable with
    | .error cause => .moved (s.fault span cause)
    | .ok () => s.nextArgument span v [] arguments next
  | .argument span callee known rest next => s.nextArgument span callee (v :: known) rest next
  | .property span name next => .moved (s.readProperty span name v next)
  | .target span name value next =>
    match v.asObject name with
    | .error cause => .moved (s.fault span cause)
    | .ok (id, _) => .moved { s with control := .evaluate value (.field id name next) }
  | .field object name next =>
    .moved { s with control := .value v next, memory := s.memory.setField object name v }
  | .construct object next => .moved (s.give object next)

/-- The pending work goes on after the statement that it waits for. -/
def resume (s : State) (flow : Flow) (pending : AfterStmt) : Progress :=
  match pending with
  | .done =>
    match flow with
    | .normal => .stopped .done s.memory
    | .returned _ => .moved (s.anomaly .returnAtTop)
  | .sequence rest next =>
    match flow, rest with
    | .normal, stmt :: rest => .moved { s with control := .execute stmt (.sequence rest next) }
    | flow, _ => .moved (s.finish flow next)
  | .leave env next => .moved { s with env, control := .ended flow next }
  | .leaveCall env closure next => .moved (s.leaveCall env closure flow next)
  | .enterLoop loop next => .moved (s.round loop next)
  | .endRound loop next =>
    match flow with
    | .returned v => .moved (s.finish (.returned v) next)
    | .normal =>
      match loop.step with
      | none => .moved (s.round loop next)
      | some step => .moved { s with control := .evaluate step (.round loop next) }

/-- One step. -/
def step (s : State) : Progress :=
  match s.control with
  | .execute stmt next => .moved (s.execute stmt next)
  | .evaluate expr next => .moved (s.evaluate expr next)
  | .value v next => s.accept v next
  | .ended flow next => s.resume flow next
  | .stuck trouble => .stopped (.stuck trouble) s.memory

/-- The state in which a program begins. -/
def start (memory : Memory) (p : Program) : State :=
  { control := .ended .normal (.sequence p .done), env := .top, depth := 0, memory }

/-- Runs the machine for at most so many steps. -/
def run : Nat → World → State → World × Memory × Option Ending
  | 0, w, s => (w, s.memory, none)
  | fuel + 1, w, s =>
    match s.step with
    | .moved s => run fuel w s
    | .waiting request resume =>
      let (reply, w) := w.answer request
      run fuel w (resume reply)
    | .stopped ending memory => (w, memory, some ending)

end State

end Lexical

end LoxLang
