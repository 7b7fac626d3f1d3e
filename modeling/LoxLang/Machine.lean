import LoxLang.Program.Distances
import LoxLang.Store

/-!
# The machine

A program is executed in small steps. A state of the machine says what is done now (`Control`) and
what is done after it, as a list of pending work that ends with the program itself. Pending work
that waits for a value (`AfterValue`) and pending work that waits for the end of a statement
(`AfterStmt`) are two types, so a value can never reach work that waits for a statement; and calls
of the program nest in that list, not in anything that executes it, so only `callLimit` bounds how
deep they go.

The machine does nothing to the outside. To write a line, to read one or to know the time it stops
with a `Request`, and goes on with the reply.
-/

namespace LoxLang

/-! ### What is pending -/

/-- A loop: while the condition holds, or for ever without one, the body and then the step. -/
structure Loop where
  /-- Tested before each round. -/
  condition : Option Expr
  /-- Evaluated after each round. -/
  step : Option Expr
  /-- Executed in each round. -/
  body : Stmt

/-- How a statement ends. -/
inductive Flow where
  | normal
  /-- The function around the statement ends with a value. -/
  | returned (value : Value)

/-- Why a program stops before its end. -/
inductive Trouble where
  | fault (fault : Fault)
  | anomaly (anomaly : Anomaly)
deriving DecidableEq, Repr

mutual

/-- What is done with a value. -/
inductive AfterValue where
  /-- Nothing: it was computed for its effects. -/
  | discard (next : AfterStmt)
  | print (span : Span) (next : AfterStmt)
  /-- It becomes a variable of the innermost scope. -/
  | define (name : String) (next : AfterStmt)
  /-- It is the superclass, named at `span`, of the class being declared. -/
  | inherit (span : Span) (name : String) (methods : List FunDecl) (next : AfterStmt)
  | choose (yes : Stmt) (no : Option Stmt) (next : AfterStmt)
  /-- It is the condition of a loop. -/
  | test (loop : Loop) (next : AfterStmt)
  /-- It is the step of a loop, and the next round begins. -/
  | round (loop : Loop) (next : AfterStmt)
  | returns (next : AfterStmt)
  | assign (span : Span) (name : String) (next : AfterValue)
  | unary (span : Span) (op : UnaryOp) (next : AfterValue)
  /-- It is the left operand. -/
  | left (span : Span) (op : BinaryOp) (right : Expr) (next : AfterValue)
  /-- It is the right operand. -/
  | right (span : Span) (op : BinaryOp) (left : Value) (next : AfterValue)
  /-- It is called. -/
  | callee (span : Span) (arguments : List Expr) (next : AfterValue)
  /-- It is an argument; those before it are known, the latest first. -/
  | argument (span : Span) (callee : Value) (known : List Value) (rest : List Expr)
      (next : AfterValue)
  /-- It is the object whose property is read. -/
  | property (span : Span) (name : String) (next : AfterValue)
  /-- It is the object whose property is given a value. -/
  | target (span : Span) (name : String) (value : Expr) (next : AfterValue)
  /-- It becomes a field of the instance. -/
  | field (object : Nat) (name : String) (next : AfterValue)
  /-- It is what the initializer of a new instance returned; the instance is the value. -/
  | construct (object : Value) (next : AfterValue)

/-- What is done when a statement has ended. -/
inductive AfterStmt where
  /-- Nothing: it was the program. -/
  | done
  | sequence (rest : List Stmt) (next : AfterStmt)
  /-- The scope before the statement is restored. -/
  | leave (scope : Chain) (next : AfterStmt)
  /-- It was the body of a function, which was called in that scope. -/
  | leaveCall (scope : Chain) (closure : Closure) (next : AfterValue)
  /-- It was the first clause of a loop. -/
  | enterLoop (loop : Loop) (next : AfterStmt)
  /-- It was the body of a loop. -/
  | endRound (loop : Loop) (next : AfterStmt)

end

/-- What the machine does next. -/
inductive Control where
  | execute (stmt : Stmt) (next : AfterStmt)
  | evaluate (expr : Expr) (next : AfterValue)
  | value (value : Value) (next : AfterValue)
  | ended (flow : Flow) (next : AfterStmt)
  | stuck (trouble : Trouble)

/-- A state of the machine. -/
structure State where
  /-- What is done next. -/
  control : Control
  /-- The frames that are visible now. -/
  scope : Chain
  /-- How many function bodies are being executed. -/
  depth : Nat
  /-- Everything that changes. -/
  heap : Heap

/-! ### Requests and endings -/

/-- What the machine may ask of the outside. -/
inductive Request where
  /-- To write a text and a line break. -/
  | writeLine (text : String)
  | readLine
  | readClock
deriving DecidableEq, Repr

/-- What reading a line comes to. -/
inductive InputLine where
  | line (text : String)
  /-- Nothing is left. -/
  | closed
  /-- The bytes of the line are no text. -/
  | invalid
deriving DecidableEq, Repr

/-- The replies to a request: whether the line was written, what was read, the time in seconds. -/
def Request.Reply : Request → Type
  | writeLine _ => Bool
  | readLine => InputLine
  | readClock => Float

/-- How a program ends. -/
inductive Ending where
  | done
  | stuck (trouble : Trouble)
deriving DecidableEq, Repr

/-- What one step leads to. -/
inductive Progress where
  | moved (state : State)
  | waiting (request : Request) (resume : request.Reply → State)
  | stopped (ending : Ending) (heap : Heap)

/-- The deepest nesting of function calls. -/
def callLimit : Nat := 4096

/-- The names of the channels in messages. -/
def standardOutput : String := "stdout"

@[inherit_doc standardOutput]
def standardInput : String := "stdin"

/-- The variables of a call: each parameter with its argument. -/
def argumentTable (params : List Name) (arguments : List Value) : Table :=
  (params.zip arguments).foldl (fun t (p, v) ↦ t.set p.text v) []

namespace State

/-! ### Ways to go on -/

/-- Stops with a fault. -/
def fault (s : State) (span : Span) (cause : Cause) : State :=
  { s with control := .stuck (.fault ⟨cause, span⟩) }

/-- Stops with an anomaly. -/
def anomaly (s : State) (a : Anomaly) : State := { s with control := .stuck (.anomaly a) }

/-- Goes on with a value. -/
def give (s : State) (v : Value) (next : AfterValue) : State :=
  { s with control := .value v next }

/-- Goes on after a statement. -/
def finish (s : State) (flow : Flow) (next : AfterStmt) : State :=
  { s with control := .ended flow next }

/-- Goes on with a value, or stops with the cause why there is none. -/
def giveOr (s : State) (span : Span) (result : Except Cause Value) (next : AfterValue) : State :=
  match result with
  | .ok v => s.give v next
  | .error cause => s.fault span cause

/-- Begins a round of a loop. -/
def round (s : State) (loop : Loop) (next : AfterStmt) : State :=
  match loop.condition with
  | none => { s with control := .execute loop.body (.endRound loop next) }
  | some condition => { s with control := .evaluate condition (.test loop next) }

/-! ### Variables -/

/-- The frame that a variable is read from and written to: by its distance if it has one, and else
the global frame if that binds the name. -/
def frameOf (s : State) (table : Distances) (span : Span) (name : String) :
    Except Trouble FrameId :=
  match table.lookup span with
  | some depth => (Heap.ancestor s.scope depth).mapError .anomaly
  | none =>
    match s.heap.binder? Heap.globals name with
    | some frame => .ok frame
    | none => .error (.fault ⟨.notDefined name, span⟩)

/-- The value of a variable. -/
def lookup (s : State) (table : Distances) (span : Span) (name : String) : Except Trouble Value :=
  match s.frameOf table span name with
  | .error t => .error t
  | .ok frame =>
    match (s.heap.frame frame).get? name with
    | some v => .ok v
    | none => .error (.anomaly (.missingLocal name))

/-- A variable is read. -/
def read (s : State) (table : Distances) (span : Span) (name : String) (next : AfterValue) :
    State :=
  match s.lookup table span name with
  | .ok v => s.give v next
  | .error t => { s with control := .stuck t }

/-- A variable of a frame is written; the value of the whole is `result`. -/
def writeIn (s : State) (frame : FrameId) (name : String) (v result : Value) (next : AfterValue) :
    State :=
  let ⟨_, scope, depth, heap⟩ := s
  { control := .value result next, scope, depth, heap := heap.setIn frame name v }

/-- A variable is written; the value of the whole is `result`. -/
def write (s : State) (table : Distances) (span : Span) (name : String) (v result : Value)
    (next : AfterValue) : State :=
  match s.frameOf table span name with
  | .ok frame => s.writeIn frame name v result next
  | .error t => { s with control := .stuck t }

/-- A variable is stepped up or down. -/
def stepVariable (s : State) (table : Distances) (span : Span) (side : Side) (op : StepOp)
    (name : String) (next : AfterValue) : State :=
  match s.lookup table span name with
  | .error t => { s with control := .stuck t }
  | .ok old =>
    match old.stepped op with
    | .error cause => s.fault span cause
    | .ok new =>
      let result := match side with | .before => new | .after => old
      s.write table span name new result next

/-! ### Functions and methods -/

/-- A function that is new each time it is evaluated. -/
def giveFunction (s : State) (closure : Closure) (next : AfterValue) : State :=
  let ⟨_, scope, depth, heap⟩ := s
  let (v, heap) := heap.newFunction closure
  { control := .value v next, scope, depth, heap }

/-- A method of an instance: a function of its own, in which `this` is the instance. -/
def giveMethod (s : State) (method : Closure) (this : Value) (next : AfterValue) : State :=
  let ⟨_, scope, depth, heap⟩ := s
  let (bound, heap) := heap.bindMethod method this
  let (v, heap) := heap.newFunction bound
  { control := .value v next, scope, depth, heap }

/-- A method of the superclass is read. The frame of `this` lies one hop inside that of `super`. -/
def readSuper (s : State) (table : Distances) (span : Span) (name : String) (next : AfterValue) :
    State :=
  match table.lookup span with
  | none => s.anomaly (.noDistance span)
  | some depth =>
    match s.heap.getAt s.scope "super" depth with
    | .error a => s.anomaly a
    | .ok (some (.cls above)) =>
      match depth with
      | 0 => s.anomaly .thisNotBesideSuper
      | inner + 1 =>
        match s.heap.getAt s.scope "this" inner with
        | .error a => s.anomaly a
        | .ok (some (.object id c)) =>
          match above.method? name with
          | none => s.fault span (.noSuchAttribute above.name name)
          | some method => s.giveMethod method (.object id c) next
        | .ok _ => s.anomaly .thisNotBesideSuper
    | .ok _ => s.anomaly .superNotAClass

/-- A property of a value is read. -/
def readProperty (s : State) (span : Span) (name : String) (v : Value) (next : AfterValue) :
    State :=
  match v.asObject name with
  | .error cause => s.fault span cause
  | .ok (id, c) =>
    match s.heap.property id c name with
    | .error cause => s.fault span cause
    | .ok (.field v) => s.give v next
    | .ok (.method closure) => s.giveMethod closure (.object id c) next

/-! ### Calls -/

/-- The body of a function is entered, in a new frame with its arguments. -/
def enter (s : State) (span : Span) (closure : Closure) (arguments : List Value)
    (next : AfterValue) : State :=
  if callLimit ≤ s.depth then
    s.fault span (.callsTooDeep callLimit)
  else
    let ⟨_, scope, depth, heap⟩ := s
    let (inner, heap) :=
      heap.child closure.scope (argumentTable closure.function.params arguments)
    { control := .ended .normal (.sequence closure.function.body (.leaveCall scope closure next))
      scope := inner
      depth := depth + 1
      heap }

/-- An instance is made, and handed to the initializer of its class if there is one. -/
def construct (s : State) (span : Span) (c : Class) (arguments : List Value) (next : AfterValue) :
    State :=
  let ⟨control, scope, depth, heap⟩ := s
  let (object, heap) := heap.newObject c
  match c.initializer? with
  | none => { control := .value object next, scope, depth, heap }
  | some initializer =>
    let (bound, heap) := heap.bindMethod initializer object
    State.enter { control, scope, depth, heap } span bound arguments (.construct object next)

/-- A value is called. -/
def call (s : State) (span : Span) (callee : Value) (arguments : List Value) (next : AfterValue) :
    Progress :=
  match callee.accepts arguments.length with
  | .error cause => .moved (s.fault span cause)
  | .ok () =>
    match callee with
    | .native .clock => .waiting .readClock fun time ↦ s.give (.number time) next
    | .native .input =>
      .waiting .readLine fun
        | .line text => s.give (.string text) next
        | .closed => s.give .nil next
        | .invalid => s.fault span (.unreadable standardInput)
    | .function _ closure => .moved (s.enter span closure arguments next)
    | .cls c => .moved (s.construct span c arguments next)
    | v => .moved (s.fault span (.notCallable v.typeName))

/-- A function body has ended: its caller goes on, in its own scope. An initializer gives the
instance that it was called on, whatever its body returned. -/
def leaveCall (s : State) (scope : Chain) (closure : Closure) (flow : Flow) (next : AfterValue) :
    State :=
  let s := { s with scope, depth := s.depth - 1 }
  if closure.isInitializer then
    match s.heap.getAt closure.scope "this" 0 with
    | .ok (some this) => s.give this next
    | _ => s.anomaly .thisNotInInitializer
  else
    match flow with
    | .normal => s.give .nil next
    | .returned v => s.give v next

/-! ### Declarations and loops -/

/-- A name is bound in the innermost scope. -/
def bindName (s : State) (name : String) (v : Value) (next : AfterStmt) : State :=
  let ⟨_, scope, depth, heap⟩ := s
  { control := .ended .normal next, scope, depth, heap := heap.define scope name v }

/-- A function is made, and bound to its name. -/
def declareFunction (s : State) (function : FunDecl) (next : AfterStmt) : State :=
  let ⟨_, scope, depth, heap⟩ := s
  let (v, heap) := heap.newFunction { function, scope, isInitializer := false }
  { control := .ended .normal next, scope, depth, heap := heap.define scope function.name v }

/-- A class is made, and bound to its name. -/
def declareClass (s : State) (name : String) (above : Option Class) (methods : List FunDecl)
    (next : AfterStmt) : State :=
  let ⟨_, scope, depth, heap⟩ := s
  let (c, heap) := heap.newClass scope name above methods
  { control := .ended .normal next, scope, depth, heap := heap.define scope name c }

/-- A class is declared. Its name is bound before its superclass is looked up. -/
def beginClass (s : State) (name : String) (parent : Option Name) (methods : List FunDecl)
    (next : AfterStmt) : State :=
  let s := s.bindName name .nil next
  match parent with
  | none => s.declareClass name none methods next
  | some parent =>
    { s with control := .evaluate parent.toExpr (.inherit parent.span name methods next) }

/-- A new innermost scope without variables is entered. -/
def enterScope (s : State) : State :=
  let ⟨control, scope, depth, heap⟩ := s
  let (inner, heap) := heap.child scope []
  { control, scope := inner, depth, heap }

/-- A loop is entered, in a scope of its own. -/
def enterLoop (s : State) (init : Option Stmt) (loop : Loop) (next : AfterStmt) : State :=
  let outer := s.scope
  let s := s.enterScope
  match init with
  | none => s.round loop (.leave outer next)
  | some init => { s with control := .execute init (.enterLoop loop (.leave outer next)) }

/-! ### One step -/

/-- The statement is executed as far as its first expression or its first part. -/
def execute (s : State) (stmt : Stmt) (next : AfterStmt) : State :=
  match stmt with
  | .expression _ value => { s with control := .evaluate value (.discard next) }
  | .print span value => { s with control := .evaluate value (.print span next) }
  | .varDecl _ name none => s.bindName name .nil next
  | .varDecl _ name (some value) => { s with control := .evaluate value (.define name next) }
  | .funDecl function => s.declareFunction function next
  | .classDecl _ name parent methods => s.beginClass name parent methods next
  | .block _ body =>
    let outer := s.scope
    s.enterScope.finish .normal (.sequence body (.leave outer next))
  | .conditional _ condition yes no =>
    { s with control := .evaluate condition (.choose yes no next) }
  | .whileLoop _ condition body => s.round ⟨some condition, none, body⟩ next
  | .forLoop _ init condition step body => s.enterLoop init ⟨condition, step, body⟩ next
  | .returns _ none => s.finish (.returned .nil) next
  | .returns _ (some value) => { s with control := .evaluate value (.returns next) }

/-- The expression is evaluated as far as its first part. -/
def evaluate (s : State) (table : Distances) (expr : Expr) (next : AfterValue) : State :=
  match expr with
  | .literal _ value => s.give (.ofLiteral value) next
  | .var span name => s.read table span name next
  | .assign span name value => { s with control := .evaluate value (.assign span name next) }
  | .step span side op name => s.stepVariable table span side op name next
  | .group _ inner => { s with control := .evaluate inner next }
  | .unary span op operand => { s with control := .evaluate operand (.unary span op next) }
  | .binary span op left right => { s with control := .evaluate left (.left span op right next) }
  | .call span callee arguments =>
    { s with control := .evaluate callee (.callee span arguments next) }
  | .property span object name => { s with control := .evaluate object (.property span name next) }
  | .setProperty span object name value =>
    { s with control := .evaluate object (.target span name value next) }
  | .this span => s.read table span "this" next
  | .super span name => s.readSuper table span name next
  | .lambda function => s.giveFunction { function, scope := s.scope, isInitializer := false } next

/-- The next argument of a call is evaluated, or the call is made if there is none. -/
def nextArgument (s : State) (span : Span) (callee : Value) (known : List Value)
    (rest : List Expr) (next : AfterValue) : Progress :=
  match rest with
  | [] => s.call span callee known.reverse next
  | e :: rest => .moved { s with control := .evaluate e (.argument span callee known rest next) }

/-- The pending work goes on with the value that it waits for. -/
def accept (s : State) (table : Distances) (v : Value) (pending : AfterValue) : Progress :=
  match pending with
  | .discard next => .moved (s.finish .normal next)
  | .print span next =>
    .waiting (.writeLine v.display) fun
      | true => s.finish .normal next
      | false => s.fault span (.unwritable standardOutput)
  | .define name next => .moved (s.bindName name v next)
  | .inherit span name methods next =>
    match v with
    | .cls above => .moved (s.declareClass name (some above) methods next)
    | v => .moved (s.fault span (.superclassNotAClass v.typeName))
  | .choose yes no next =>
    if v.isTruthy then .moved { s with control := .execute yes next }
    else
      match no with
      | some no => .moved { s with control := .execute no next }
      | none => .moved (s.finish .normal next)
  | .test loop next =>
    if v.isTruthy then .moved { s with control := .execute loop.body (.endRound loop next) }
    else .moved (s.finish .normal next)
  | .round loop next => .moved (s.round loop next)
  | .returns next => .moved (s.finish (.returned v) next)
  | .assign span name next => .moved (s.write table span name v v next)
  | .unary span op next => .moved (s.giveOr span (v.unary op) next)
  | .left span op right next =>
    if v.decides op then .moved (s.give v next)
    else .moved { s with control := .evaluate right (.right span op v next) }
  | .right span op left next => .moved (s.giveOr span (left.binary op v) next)
  | .callee span arguments next =>
    match v.callable with
    | .error cause => .moved (s.fault span cause)
    | .ok () => s.nextArgument span v [] arguments next
  | .argument span callee known rest next => s.nextArgument span callee (v :: known) rest next
  | .property span name next => .moved (s.readProperty span name v next)
  | .target span name value next =>
    match v.asObject name with
    | .error cause => .moved (s.fault span cause)
    | .ok (id, _) => .moved { s with control := .evaluate value (.field id name next) }
  | .field object name next =>
    let ⟨_, scope, depth, heap⟩ := s
    .moved { control := .value v next, scope, depth, heap := heap.setField object name v }
  | .construct object next => .moved (s.give object next)

/-- The pending work goes on after the statement that it waits for. -/
def resume (s : State) (flow : Flow) (pending : AfterStmt) : Progress :=
  match pending with
  | .done =>
    match flow with
    | .normal => .stopped .done s.heap
    | .returned _ => .moved (s.anomaly .returnAtTop)
  | .sequence rest next =>
    match flow, rest with
    | .normal, stmt :: rest => .moved { s with control := .execute stmt (.sequence rest next) }
    | flow, _ => .moved (s.finish flow next)
  | .leave scope next => .moved { s with scope, control := .ended flow next }
  | .leaveCall scope closure next => .moved (s.leaveCall scope closure flow next)
  | .enterLoop loop next => .moved (s.round loop next)
  | .endRound loop next =>
    match flow with
    | .returned v => .moved (s.finish (.returned v) next)
    | .normal =>
      match loop.step with
      | none => .moved (s.round loop next)
      | some step => .moved { s with control := .evaluate step (.round loop next) }

/-- One step, where the table gives the distances of local references. -/
def step (s : State) (table : Distances) : Progress :=
  match s.control with
  | .execute stmt next => .moved (s.execute stmt next)
  | .evaluate expr next => .moved (s.evaluate table expr next)
  | .value v next => s.accept table v next
  | .ended flow next => s.resume flow next
  | .stuck trouble => .stopped (.stuck trouble) s.heap

/-- The state in which a program begins. -/
def start (heap : Heap) (p : Program) : State :=
  { control := .ended .normal (.sequence p .done), scope := Heap.globals, depth := 0, heap }

end State

end LoxLang
