import LoxLang.Session

/-!
# Execution by recursion

The machine keeps what is pending in a list. Here a program is executed in the other way: statements
and expressions are executed by recursion, and what is pending is whatever the recursion comes back
to. The scope and the depth of calls are then two variables that a block and a call change and that
they have to put back however they are left, by their end, by a `return` or by a fault
(`Action.within`, `Action.deeper`).

The recursion is bounded by a number, and an action that it does not suffice for is unfinished. An
anomaly leaves everything where it is: nothing is executed after it.
-/

namespace LoxLang.Direct

/-! ### Actions -/

/-- What an action reads and changes. -/
structure Store where
  /-- The frames that are visible now. -/
  scope : Chain
  /-- How many function bodies are being executed. -/
  depth : Nat
  /-- Variables, fields and what else changes. -/
  heap : Heap
  /-- What lies outside the program. -/
  world : World

/-- How an action is left. -/
inductive Exit (α : Type) where
  /-- With a result or with a fault. -/
  | finished (result : Except Fault α) (store : Store)
  | broken (anomaly : Anomaly) (store : Store)
  | unfinished

/-- What was changed for an action is put back when it has finished. An anomaly leaves everything
where it is. -/
def Exit.afterwards {α : Type} (f : Store → Store) : Exit α → Exit α
  | .finished result σ => .finished result (f σ)
  | .broken a σ => .broken a σ
  | .unfinished => .unfinished

/-- Something that is done, and has a result. -/
def Action (α : Type) := Store → Exit α

namespace Action

variable {α β : Type}

/-- One action and then another, unless the first has no result. -/
def bind (p : Action α) (f : α → Action β) : Action β := fun σ ↦
  match p σ with
  | .finished (.ok a) σ => f a σ
  | .finished (.error fault) σ => .finished (.error fault) σ
  | .broken a σ => .broken a σ
  | .unfinished => .unfinished

instance : Monad Action where
  pure a := fun σ ↦ .finished (.ok a) σ
  bind := bind

/-- Stops with a fault. -/
def fault (f : Fault) : Action α := fun σ ↦ .finished (.error f) σ

/-- Stops with an anomaly. -/
def anomaly (a : Anomaly) : Action α := fun σ ↦ .broken a σ

/-- Needs a larger bound. -/
def unfinished : Action α := fun _ ↦ .unfinished

/-- The result, or a fault with the cause why there is none. -/
def orFault (span : Span) : Except Cause α → Action α
  | .ok a => pure a
  | .error cause => fault ⟨cause, span⟩

/-- The result, or the anomaly why there is none. -/
def orAnomaly : Except Anomaly α → Action α
  | .ok a => pure a
  | .error a => anomaly a

/-- Reads what is there. -/
def observe (f : Store → α) : Action α := fun σ ↦ .finished (.ok (f σ)) σ

/-- Changes the heap. -/
def change (f : Store → α × Heap) : Action α := fun σ ↦
  .finished (.ok (f σ).1) { σ with heap := (f σ).2 }

/-- Asks something of the outside. -/
def ask (request : Request) : Action request.Reply := fun σ ↦
  .finished (.ok (σ.world.answer request).1) { σ with world := (σ.world.answer request).2 }

/-- Acts in another scope. The scope before it is put back. -/
def within (scope : Chain) (p : Action α) : Action α := fun σ ↦
  (p { σ with scope }).afterwards fun σ' ↦ { σ' with scope := σ.scope }

/-- Acts one call deeper, unless the limit is reached. The call that is charged is at `span`. -/
def deeper (span : Span) (p : Action α) : Action α := fun σ ↦
  if callLimit ≤ σ.depth then
    .finished (.error ⟨.callsTooDeep callLimit, span⟩) σ
  else
    (p { σ with depth := σ.depth + 1 }).afterwards fun σ' ↦ { σ' with depth := σ'.depth - 1 }

/-- After a result the action goes on with it. -/
theorem bind_of_ok {p : Action α} {σ σ' : Store} {a : α} (h : p σ = .finished (.ok a) σ')
    (f : α → Action β) : (p >>= f) σ = f a σ' := by
  change Action.bind p f σ = _
  rw [Action.bind, h]

end Action

open LoxLang.Direct.Action

/-! ### Variables -/

/-- The value of a name in the frame so many hops up, if that frame binds it. -/
def valueAt (name : String) (depth : Nat) : Action (Option Value) := do
  orAnomaly (← observe fun σ ↦ σ.heap.getAt σ.scope name depth)

/-- The value of a variable. -/
def lookup (table : Distances) (span : Span) (name : String) : Action Value := do
  match table.lookup span with
  | some depth =>
    match ← valueAt name depth with
    | some v => pure v
    | none => anomaly (.missingLocal name)
  | none =>
    match ← observe fun σ ↦ σ.heap.get? Heap.globals name with
    | some v => pure v
    | none => fault ⟨.notDefined name, span⟩

/-- A variable gets a value. -/
def assign (table : Distances) (span : Span) (name : String) (v : Value) : Action Unit := do
  match table.lookup span with
  | some depth =>
    let heap ← orAnomaly (← observe fun σ ↦ σ.heap.assignAt σ.scope name v depth)
    change fun _ ↦ ((), heap)
  | none =>
    match ← observe fun σ ↦ σ.heap.assign? Heap.globals name v with
    | some heap => change fun _ ↦ ((), heap)
    | none => fault ⟨.notDefined name, span⟩

/-- A name is bound in the innermost scope. -/
def define (name : String) (v : Value) : Action Unit :=
  change fun σ ↦ ((), σ.heap.define σ.scope name v)

/-- A variable is stepped up or down. -/
def stepVariable (table : Distances) (span : Span) (side : Side) (op : StepOp) (name : String) :
    Action Value := do
  let old ← lookup table span name
  let new ← orFault span (old.stepped op)
  assign table span name new
  pure (match side with | .before => new | .after => old)

/-! ### Functions and methods -/

/-- A function that is new each time it is evaluated. -/
def newFunction (function : FunDecl) : Action Value :=
  change fun σ ↦ σ.heap.newFunction { function, scope := σ.scope, isInitializer := false }

/-- A method of an instance: a function of its own, in which `this` is the instance. -/
def newMethod (method : Closure) (this : Value) : Action Value := do
  let bound ← change fun σ ↦ σ.heap.bindMethod method this
  change fun σ ↦ σ.heap.newFunction bound

/-- A method of the superclass. The frame of `this` lies one hop inside that of `super`. -/
def superMethod (table : Distances) (span : Span) (name : String) : Action Value := do
  match table.lookup span with
  | none => anomaly (.noDistance span)
  | some depth =>
    match ← valueAt "super" depth with
    | some (.cls above) =>
      match depth with
      | 0 => anomaly .thisNotBesideSuper
      | inner + 1 =>
        match ← valueAt "this" inner with
        | some (.object id c) =>
          match above.method? name with
          | none => fault ⟨.noSuchAttribute above.name name, span⟩
          | some method => newMethod method (.object id c)
        | _ => anomaly .thisNotBesideSuper
    | _ => anomaly .superNotAClass

/-- A property of a value. -/
def property (span : Span) (name : String) (v : Value) : Action Value := do
  let (id, c) ← orFault span (v.asObject name)
  match ← orFault span (← observe fun σ ↦ σ.heap.property id c name) with
  | .field v => pure v
  | .method closure => newMethod closure (.object id c)

/-! ### Parts

What is executed by way of its parts, where `eval` and `exec` evaluate and execute these. -/

section Parts

variable (eval : Expr → Action Value) (exec : Stmt → Action Flow)

/-- Executes statements until one returns. -/
def all : List Stmt → Action Flow
  | [] => pure .normal
  | stmt :: rest => do
    match ← exec stmt with
    | .normal => all rest
    | .returned v => pure (.returned v)

/-- Evaluates expressions, the first first. -/
def each : List Expr → Action (List Value)
  | [] => pure []
  | e :: rest => do
    let v ← eval e
    let vs ← each rest
    pure (v :: vs)

/-- Executes the body of a function in a new frame with its arguments. An initializer gives the
instance that it was called on, whatever its body returned. -/
def callFunction (span : Span) (closure : Closure) (arguments : List Value) : Action Value := do
  let flow ← deeper span do
    let inner ← change fun σ ↦
      σ.heap.child closure.scope (argumentTable closure.function.params arguments)
    within inner (all exec closure.function.body)
  if closure.isInitializer then
    match ← observe fun σ ↦ σ.heap.getAt closure.scope "this" 0 with
    | .ok (some this) => pure this
    | _ => anomaly .thisNotInInitializer
  else
    match flow with
    | .normal => pure .nil
    | .returned v => pure v

/-- Makes an instance, and hands it to the initializer of its class if there is one. -/
def construct (span : Span) (c : Class) (arguments : List Value) : Action Value := do
  let object ← change fun σ ↦ σ.heap.newObject c
  match c.initializer? with
  | none => pure object
  | some initializer => do
    let bound ← change fun σ ↦ σ.heap.bindMethod initializer object
    let _ ← callFunction exec span bound arguments
    pure object

/-- Calls a value. -/
def invoke (span : Span) (callee : Value) (arguments : List Value) : Action Value := do
  orFault span (callee.accepts arguments.length)
  match callee with
  | .native .clock => do
    let time ← ask .readClock
    pure (.number time)
  | .native .input => do
    match ← ask .readLine with
    | .line text => pure (.string text)
    | .closed => pure .nil
    | .invalid => fault ⟨.unreadable standardInput, span⟩
  | .function _ closure => callFunction exec span closure arguments
  | .cls c => construct exec span c arguments
  | v => fault ⟨.notCallable v.typeName, span⟩

/-- The class that a superclass clause names, if there is one. -/
def superclass : Option Name → Action (Option Class)
  | none => pure none
  | some parent => do
    match ← eval parent.toExpr with
    | .cls above => pure (some above)
    | v => fault ⟨.superclassNotAClass v.typeName, parent.span⟩

/-- Executes the first clause of a loop, if there is one, and goes on however it ends. -/
def start : Option Stmt → Action Unit
  | none => pure ()
  | some init => do
    let _ ← exec init
    pure ()

/-- Whether a loop goes on. -/
def holds : Option Expr → Action Bool
  | none => pure true
  | some condition => do
    let v ← eval condition
    pure v.isTruthy

/-- Evaluates the step of a loop, if there is one. -/
def advance : Option Expr → Action Unit
  | none => pure ()
  | some step => do
    let _ ← eval step
    pure ()

/-- At most so many rounds of a loop. -/
def rounds (loop : Loop) : Nat → Action Flow
  | 0 => unfinished
  | n + 1 => do
    if ← holds eval loop.condition then
      match ← exec loop.body with
      | .returned v => pure (.returned v)
      | .normal =>
        advance eval loop.step
        rounds loop n
    else
      pure .normal

end Parts

/-! ### Statements and expressions -/

mutual

/-- Evaluates an expression, by recursion to this depth at most. -/
def evaluate (table : Distances) : Nat → Expr → Action Value
  | 0, _ => unfinished
  | n + 1, e => do
    match e with
    | .literal _ value => pure (.ofLiteral value)
    | .var span name => lookup table span name
    | .assign span name value =>
      let v ← evaluate table n value
      assign table span name v
      pure v
    | .step span side op name => stepVariable table span side op name
    | .group _ inner => evaluate table n inner
    | .unary span op operand =>
      let v ← evaluate table n operand
      orFault span (v.unary op)
    | .binary span op left right =>
      let v ← evaluate table n left
      if v.decides op then pure v
      else
        let w ← evaluate table n right
        orFault span (v.binary op w)
    | .call span callee arguments =>
      let v ← evaluate table n callee
      orFault span v.callable
      let vs ← each (evaluate table n) arguments
      invoke (execute table n) span v vs
    | .property span object name =>
      let v ← evaluate table n object
      property span name v
    | .setProperty span object name value =>
      let v ← evaluate table n object
      let (id, _) ← orFault span (v.asObject name)
      let w ← evaluate table n value
      change fun σ ↦ (w, σ.heap.setField id name w)
    | .this span => lookup table span "this"
    | .super span name => superMethod table span name
    | .lambda function => newFunction function

/-- Executes a statement, by recursion to this depth and loops of so many rounds at most. -/
def execute (table : Distances) : Nat → Stmt → Action Flow
  | 0, _ => unfinished
  | n + 1, stmt => do
    match stmt with
    | .expression _ value =>
      let _ ← evaluate table n value
      pure .normal
    | .print span value =>
      let v ← evaluate table n value
      let written ← ask (.writeLine v.display)
      match written with
      | true => pure .normal
      | false => fault ⟨.unwritable standardOutput, span⟩
    | .varDecl _ name none =>
      define name .nil
      pure .normal
    | .varDecl _ name (some value) =>
      let v ← evaluate table n value
      define name v
      pure .normal
    | .funDecl function =>
      let v ← newFunction function
      define function.name v
      pure .normal
    | .classDecl _ name parent methods =>
      define name .nil
      let above ← superclass (evaluate table n) parent
      let c ← change fun σ ↦ σ.heap.newClass σ.scope name above methods
      define name c
      pure .normal
    | .block _ body =>
      let inner ← change fun σ ↦ σ.heap.child σ.scope []
      within inner (all (execute table n) body)
    | .conditional _ condition yes no =>
      let v ← evaluate table n condition
      if v.isTruthy then execute table n yes
      else
        match no with
        | some no => execute table n no
        | none => pure .normal
    | .whileLoop _ condition body =>
      rounds (evaluate table n) (execute table n) ⟨some condition, none, body⟩ n
    | .forLoop _ init condition step body =>
      let inner ← change fun σ ↦ σ.heap.child σ.scope []
      within inner do
        start (execute table n) init
        rounds (evaluate table n) (execute table n) ⟨condition, step, body⟩ n
    | .returns _ none => pure (.returned .nil)
    | .returns _ (some value) =>
      let v ← evaluate table n value
      pure (.returned v)

end

/-- Executes a program. -/
def program (table : Distances) (n : Nat) (p : Program) : Action Unit := do
  match ← all (execute table n) p with
  | .normal => pure ()
  | .returned _ => anomaly .returnAtTop

/-! ### Sessions -/

/-- A session together with the scope and the depth at which the next source begins. -/
structure Interpreter where
  /-- What persists between the sources. -/
  session : Session
  /-- The scope in which the next program begins. -/
  scope : Chain
  /-- The depth at which the next program begins. -/
  depth : Nat

namespace Interpreter

/-- An interpreter that was given no source. -/
def new : Interpreter := { session := .new, scope := Heap.globals, depth := 0 }

/-- Runs a source, by recursion to this depth at most. Wherever it is left, the next source begins
there. -/
def run (n : Nat) (w : World) (i : Interpreter) (text : String) :
    Option (Verdict × World × Interpreter) :=
  match i.session.load text with
  | (s, .error faults) => some (.failed faults, w, { i with session := s })
  | (s, .ok p) =>
    match program s.distances n p ⟨i.scope, i.depth, s.heap, w⟩ with
    | .finished result σ =>
      let verdict := match result with | .ok () => .ok | .error f => .failed [f]
      some (verdict, σ.world, ⟨{ s with heap := σ.heap }, σ.scope, σ.depth⟩)
    | .broken a σ => some (.broken a, σ.world, ⟨{ s with heap := σ.heap }, σ.scope, σ.depth⟩)
    | .unfinished => none

/-- What an interpreter can come to by any sources, whether they are refused, run to their end or
are stopped by a fault. After an anomaly there are no more sources. -/
inductive Reached : Interpreter → Prop
  | new : Reached .new
  | ran {i i' : Interpreter} {n : Nat} {w w' : World} {text : String} {verdict : Verdict}
      (h : Reached i) (hrun : i.run n w text = some (verdict, w', i'))
      (hverdict : ∀ a, verdict ≠ .broken a) : Reached i'

end Interpreter

end LoxLang.Direct
