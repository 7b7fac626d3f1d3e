import LoxLang.Proofs.Relocation.Names
import LoxLang.Proofs.Relocation.Values
import LoxLang.World

/-!
# Steps of relocated programs

The machine looks at spans for one purpose: to find the distance of a reference in the table. So if
all spans are replaced, those of the table among them, by a function that keeps different spans
apart, then the machine takes the same steps (`State.step_relocate`). It asks the same of the
outside, and ends in the same way at the place that the function gives (`State.run_relocate`).
-/

namespace LoxLang

variable (f : Span → Span)

/-! ### States -/

/-- The loop with each span replaced. -/
def Loop.relocate (loop : Loop) : Loop where
  condition := loop.condition.map (Expr.relocate f)
  step := loop.step.map (Expr.relocate f)
  body := loop.body.relocate f

/-- The same end of a statement, with each span in its value replaced. -/
def Flow.relocate : Flow → Flow
  | .normal => .normal
  | .returned v => .returned (v.relocate f)

/-- The anomaly at another place, if it has one. -/
def Anomaly.relocate : Anomaly → Anomaly
  | .noDistance span => .noDistance (f span)
  | a => a

/-- The trouble at another place. -/
def Trouble.relocate : Trouble → Trouble
  | .fault e => .fault (e.relocate f)
  | .anomaly a => .anomaly (a.relocate f)

mutual

/-- The same pending work with each span replaced. -/
def AfterValue.relocate : AfterValue → AfterValue
  | .discard next => .discard next.relocate
  | .print span next => .print (f span) next.relocate
  | .define x next => .define x next.relocate
  | .inherit span x methods next =>
    .inherit (f span) x (methods.map (FunDecl.relocate f)) next.relocate
  | .choose yes no next => .choose (yes.relocate f) (no.map (Stmt.relocate f)) next.relocate
  | .test loop next => .test (loop.relocate f) next.relocate
  | .round loop next => .round (loop.relocate f) next.relocate
  | .returns next => .returns next.relocate
  | .assign span x next => .assign (f span) x next.relocate
  | .unary span op next => .unary (f span) op next.relocate
  | .left span op e next => .left (f span) op (e.relocate f) next.relocate
  | .right span op v next => .right (f span) op (v.relocate f) next.relocate
  | .callee span es next => .callee (f span) (es.map (Expr.relocate f)) next.relocate
  | .argument span v vs es next =>
    .argument (f span) (v.relocate f) (vs.map (Value.relocate f)) (es.map (Expr.relocate f))
      next.relocate
  | .property span x next => .property (f span) x next.relocate
  | .target span x e next => .target (f span) x (e.relocate f) next.relocate
  | .field i x next => .field i x next.relocate
  | .construct v next => .construct (v.relocate f) next.relocate

@[inherit_doc AfterValue.relocate]
def AfterStmt.relocate : AfterStmt → AfterStmt
  | .done => .done
  | .sequence rest next => .sequence (rest.map (Stmt.relocate f)) next.relocate
  | .leave scope next => .leave scope next.relocate
  | .leaveCall scope c next => .leaveCall scope (c.relocate f) next.relocate
  | .enterLoop loop next => .enterLoop (loop.relocate f) next.relocate
  | .endRound loop next => .endRound (loop.relocate f) next.relocate

end

/-- The same, with each span replaced. -/
def Control.relocate : Control → Control
  | .execute stmt next => .execute (stmt.relocate f) (next.relocate f)
  | .evaluate e next => .evaluate (e.relocate f) (next.relocate f)
  | .value v next => .value (v.relocate f) (next.relocate f)
  | .ended flow next => .ended (flow.relocate f) (next.relocate f)
  | .stuck t => .stuck (t.relocate f)

/-- The state with each span replaced. -/
def State.relocate (s : State) : State :=
  { s with control := s.control.relocate f, heap := s.heap.relocate f }

/-- The same ending at another place. -/
def Ending.relocate : Ending → Ending
  | .done => .done
  | .stuck t => .stuck (t.relocate f)

/-- What one step leads to, with each span replaced. -/
def Progress.relocate : Progress → Progress
  | .moved s => .moved (s.relocate f)
  | .waiting request resume => .waiting request fun reply ↦ (resume reply).relocate f
  | .stopped ending heap => .stopped (ending.relocate f) (heap.relocate f)

/-! ### Parts of a step -/

/-- A reference has the same distance at its new place. -/
theorem Distances.lookup_relocate {f : Span → Span} (hf : Function.Injective f)
    (table : Distances) (span : Span) :
    (table.relocate f).lookup (f span) = table.lookup span := by
  have hlookup := lookup_map hf (id : Nat → Nat) span table
  rw [Option.map_id, id_eq] at hlookup
  exact hlookup

/-- The only anomaly of a distance is that it is too large, and that has no place. -/
theorem Heap.getAt_of_error {h : Heap} {c : Chain} {x : String} {depth : Nat} {a : Anomaly}
    (ha : h.getAt c x depth = .error a) : a.relocate f = a := by
  unfold getAt ancestor at ha
  cases hc : c.ancestor? depth with
  | none =>
    rw [hc] at ha
    cases ha
    rfl
  | some id =>
    rw [hc] at ha
    cases ha

/-- Parameters are bound to moved arguments as to the others. -/
theorem argumentTable_relocate (params : List Name) (vs : List Value) :
    argumentTable (params.map (Name.relocate f)) (vs.map (Value.relocate f)) =
      (argumentTable params vs).relocate f := by
  unfold argumentTable
  rw [List.zip_map, List.foldl_map]
  show List.foldl _ (Table.relocate f []) _ = _
  refine List.foldl_hom (Table.relocate f) fun t entry ↦ ?_
  exact Table.set_relocate f _ _ t

namespace State

variable (s : State) (span : Span) (x : String)

@[simp] theorem heap_relocate : (s.relocate f).heap = s.heap.relocate f := rfl

@[simp] theorem scope_relocate : (s.relocate f).scope = s.scope := rfl

@[simp] theorem depth_relocate : (s.relocate f).depth = s.depth := rfl

theorem giveOr_relocate (result : Except Cause Value) (next : AfterValue) :
    (s.relocate f).giveOr (f span) (result.map (Value.relocate f)) (next.relocate f) =
      (s.giveOr span result next).relocate f := by
  cases result <;> rfl

/-- An anomaly without a place is the same in the moved state. -/
theorem anomaly_relocate {a : Anomaly} (ha : a.relocate f = a) :
    (s.relocate f).anomaly a = (s.anomaly a).relocate f := by
  show State.mk (.stuck (.anomaly a)) _ _ _ = State.mk (.stuck (.anomaly (a.relocate f))) _ _ _
  rw [ha]
  rfl

/-- A moved loop begins its next round alike. -/
theorem round_relocate (loop : Loop) (next : AfterStmt) :
    (s.relocate f).round (loop.relocate f) (next.relocate f) = (s.round loop next).relocate f := by
  obtain ⟨condition, step, body⟩ := loop
  cases condition <;> rfl

/-! ### Functions and methods -/

theorem giveMethod_relocate (method : Closure) (this : Value) (next : AfterValue) :
    (s.relocate f).giveMethod (method.relocate f) (this.relocate f) (next.relocate f) =
      (s.giveMethod method this next).relocate f := by
  have hbound := s.heap.bindMethod_relocate f this method
  unfold giveMethod
  simp only [relocate, hbound, Heap.newFunction_relocate]
  rfl

/-- A property is read alike, and its fault is at the moved place. -/
theorem readProperty_relocate (v : Value) (next : AfterValue) :
    (s.relocate f).readProperty (f span) x (v.relocate f) (next.relocate f) =
      (s.readProperty span x v next).relocate f := by
  unfold readProperty
  rw [Value.asObject_relocate]
  rcases v.asObject x with cause | ⟨id, c⟩
  · rfl
  · simp only [Except.map, heap_relocate, Heap.property_relocate]
    rcases s.heap.property id c x with cause | (v | closure)
    · rfl
    · rfl
    · exact s.giveMethod_relocate f closure (.object id c) next

/-! ### Calls -/

/-- A body is entered alike, and a call that is too deep is a fault at the moved place. -/
theorem enter_relocate (c : Closure) (vs : List Value) (next : AfterValue) :
    (s.relocate f).enter (f span) (c.relocate f) (vs.map (Value.relocate f)) (next.relocate f) =
      (s.enter span c vs next).relocate f := by
  have hchild := s.heap.child_relocate f c.scope (argumentTable c.function.params vs)
  unfold enter
  rw [depth_relocate]
  by_cases hdepth : callLimit ≤ s.depth
  · rw [if_pos hdepth, if_pos hdepth]
    rfl
  · rw [if_neg hdepth, if_neg hdepth]
    simp only [relocate, Closure.function_relocate, Closure.scope_relocate,
      FunDecl.params_relocate, FunDecl.body_relocate, argumentTable_relocate, hchild]
    rfl

/-- An instance of a moved class is made alike. -/
theorem construct_relocate (c : Class) (vs : List Value) (next : AfterValue) :
    (s.relocate f).construct (f span) (c.relocate f) (vs.map (Value.relocate f))
      (next.relocate f) = (s.construct span c vs next).relocate f := by
  have hobject := s.heap.newObject_relocate f c
  unfold construct
  rw [Class.initializer?_relocate]
  cases c.initializer? with
  | none =>
    simp only [relocate, hobject]
    rfl
  | some initializer =>
    let object := s.heap.newObject c
    let bound := object.2.bindMethod initializer object.1
    have hbound := object.2.bindMethod_relocate f object.1 initializer
    have henter := enter_relocate f { s with heap := bound.2 } span bound.1 vs
      (.construct object.1 next)
    simp only [relocate, hobject, Option.map_some]
    rw [hbound]
    exact henter

/-- A moved value is called alike. -/
theorem call_relocate (v : Value) (vs : List Value) (next : AfterValue) :
    (s.relocate f).call (f span) (v.relocate f) (vs.map (Value.relocate f)) (next.relocate f) =
      (s.call span v vs next).relocate f := by
  unfold call
  rw [Value.accepts_relocate, List.length_map]
  cases v.accepts vs.length with
  | error cause => rfl
  | ok _ =>
    cases v with
    | function id c => exact congrArg Progress.moved (enter_relocate ..)
    | cls c => exact congrArg Progress.moved (construct_relocate ..)
    | native n =>
      cases n with
      | clock => rfl
      | input =>
        refine congrArg (Progress.waiting .readLine) (funext fun reply ↦ ?_)
        cases reply <;> rfl
    | object id c =>
      exact congrArg (fun name ↦ Progress.moved (fault _ _ (.notCallable name)))
        (c.name_relocate f)
    | _ => rfl

/-- The arguments of a moved call are evaluated in the same order. -/
theorem nextArgument_relocate (v : Value) (vs : List Value) (es : List Expr) (next : AfterValue) :
    (s.relocate f).nextArgument (f span) (v.relocate f) (vs.map (Value.relocate f))
      (es.map (Expr.relocate f)) (next.relocate f) =
      (s.nextArgument span v vs es next).relocate f := by
  cases es with
  | nil =>
    have hcall := s.call_relocate f span v vs.reverse next
    rw [List.map_reverse] at hcall
    exact hcall
  | cons e es => rfl

/-- A moved call is left alike, with the moved value. -/
theorem leaveCall_relocate (scope : Chain) (c : Closure) (flow : Flow) (next : AfterValue) :
    (s.relocate f).leaveCall scope (c.relocate f) (flow.relocate f) (next.relocate f) =
      (s.leaveCall scope c flow next).relocate f := by
  unfold leaveCall
  simp only [heap_relocate, Closure.scope_relocate, Closure.isInitializer_relocate,
    Heap.getAt_relocate]
  split
  · rcases s.heap.getAt c.scope "this" 0 with a | (- | this) <;> rfl
  · cases flow <;> rfl

/-! ### Declarations and loops -/

theorem bindName_relocate (v : Value) (next : AfterStmt) :
    (s.relocate f).bindName x (v.relocate f) (next.relocate f) =
      (s.bindName x v next).relocate f :=
  congrArg (State.mk _ _ _) (s.heap.define_relocate f s.scope x v)

theorem declareFunction_relocate (function : FunDecl) (next : AfterStmt) :
    (s.relocate f).declareFunction (function.relocate f) (next.relocate f) =
      (s.declareFunction function next).relocate f := by
  let made := s.heap.newFunction { function, scope := s.scope, isInitializer := false }
  have hheap := made.2.define_relocate f s.scope function.name made.1
  unfold declareFunction
  rw [FunDecl.name_relocate]
  exact congrArg (State.mk _ _ _) hheap

/-- A class of moved methods is declared alike. -/
theorem declareClass_relocate (above : Option Class) (methods : List FunDecl)
    (next : AfterStmt) :
    (s.relocate f).declareClass x (above.map (Class.relocate f))
      (methods.map (FunDecl.relocate f)) (next.relocate f) =
      (s.declareClass x above methods next).relocate f := by
  let made := s.heap.newClass s.scope x above methods
  have hclass := s.heap.newClass_relocate f s.scope x above methods
  have hheap := made.2.define_relocate f s.scope x made.1
  unfold declareClass
  simp only [relocate, hclass]
  exact congrArg (State.mk _ _ _) hheap

/-- The superclass of a moved class is evaluated first, if there is one. -/
theorem beginClass_relocate (parent : Option Name) (methods : List FunDecl)
    (next : AfterStmt) :
    (s.relocate f).beginClass x (parent.map (Name.relocate f))
      (methods.map (FunDecl.relocate f)) (next.relocate f) =
      (s.beginClass x parent methods next).relocate f := by
  have hbound := s.bindName_relocate f x .nil next
  unfold beginClass
  change (s.relocate f).bindName x .nil (next.relocate f) = _ at hbound
  rw [hbound]
  cases parent with
  | none => exact (s.bindName x .nil next).declareClass_relocate f x none methods next
  | some parent => rfl

theorem enterScope_relocate : (s.relocate f).enterScope = s.enterScope.relocate f := by
  have hchild := s.heap.child_relocate f s.scope []
  change (s.heap.relocate f).child s.scope [] = _ at hchild
  unfold enterScope
  simp only [relocate, hchild]

/-- A moved loop is entered alike. -/
theorem enterLoop_relocate (init : Option Stmt) (loop : Loop) (next : AfterStmt) :
    (s.relocate f).enterLoop (init.map (Stmt.relocate f)) (loop.relocate f) (next.relocate f) =
      (s.enterLoop init loop next).relocate f := by
  unfold enterLoop
  rw [enterScope_relocate]
  cases init with
  | none => exact s.enterScope.round_relocate f loop (.leave s.scope next)
  | some init => rfl

/-! ### Statements begin and end -/

/-- A moved statement begins with the same step, moved. -/
theorem execute_relocate (stmt : Stmt) (next : AfterStmt) :
    (s.relocate f).execute (stmt.relocate f) (next.relocate f) =
      (s.execute stmt next).relocate f := by
  cases stmt with
  | expression | print => rfl
  | varDecl _ x value =>
    cases value with
    | none => exact s.bindName_relocate f x .nil next
    | some value => rfl
  | funDecl function => exact s.declareFunction_relocate f function next
  | classDecl _ x parent methods =>
    rw [Stmt.relocate, FunDecl.relocateAll_eq]
    exact s.beginClass_relocate f x parent methods next
  | block _ body =>
    rw [Stmt.relocate, Stmt.relocateAll_eq, execute, enterScope_relocate]
    rfl
  | conditional _ condition yes no =>
    rw [Stmt.relocate, Stmt.relocate?_eq]
    rfl
  | whileLoop _ condition body => exact s.round_relocate f ⟨some condition, none, body⟩ next
  | forLoop _ init condition step body =>
    rw [Stmt.relocate, Stmt.relocate?_eq, Expr.relocate?_eq, Expr.relocate?_eq]
    exact s.enterLoop_relocate f init ⟨condition, step, body⟩ next
  | returns _ value => cases value <;> rfl

/-- What waits for a moved statement goes on with the same step, moved. -/
theorem resume_relocate (flow : Flow) (next : AfterStmt) :
    (s.relocate f).resume (flow.relocate f) (next.relocate f) =
      (s.resume flow next).relocate f := by
  cases next with
  | done => cases flow <;> rfl
  | sequence rest next => cases rest <;> cases flow <;> rfl
  | leave => rfl
  | leaveCall scope c next =>
    exact congrArg Progress.moved (s.leaveCall_relocate f scope c flow next)
  | enterLoop loop next => exact congrArg Progress.moved (s.round_relocate f loop next)
  | endRound loop next =>
    obtain ⟨condition, step, body⟩ := loop
    cases flow with
    | returned v => rfl
    | normal =>
      cases step with
      | none => exact congrArg Progress.moved (s.round_relocate f ⟨condition, none, body⟩ next)
      | some step => rfl

/-! ### Variables -/

section Table

variable {f} (hf : Function.Injective f) (table : Distances)

include hf

/-- The moved table leads to the same frame from a moved reference. -/
theorem frameOf_relocate :
    (s.relocate f).frameOf (table.relocate f) (f span) x =
      (s.frameOf table span x).mapError (Trouble.relocate f) := by
  unfold frameOf
  rw [Distances.lookup_relocate hf, heap_relocate, Heap.binder?_relocate, scope_relocate]
  cases table.lookup span with
  | some depth =>
    dsimp only [Heap.ancestor]
    cases s.scope.ancestor? depth <;> rfl
  | none => cases s.heap.binder? Heap.globals x <;> rfl

/-- The moved table finds the moved value for a moved reference, or the moved fault. -/
theorem lookup_relocate :
    (s.relocate f).lookup (table.relocate f) (f span) x =
      ((s.lookup table span x).map (Value.relocate f)).mapError (Trouble.relocate f) := by
  have hframe := frameOf_relocate s span x hf table
  unfold lookup
  cases h : s.frameOf table span x with
  | error t =>
    rw [hframe, h]
    rfl
  | ok frame =>
    rw [h] at hframe
    change _ = Except.ok frame at hframe
    simp only [hframe, heap_relocate, Heap.frame_relocate, Table.get?_relocate]
    cases (s.heap.frame frame).get? x <;> rfl

/-- A moved variable is read alike. -/
theorem read_relocate (next : AfterValue) :
    (s.relocate f).read (table.relocate f) (f span) x (next.relocate f) =
      (s.read table span x next).relocate f := by
  unfold read
  rw [lookup_relocate s span x hf]
  cases s.lookup table span x <;> rfl

/-- A moved variable is assigned alike. -/
theorem write_relocate (v result : Value) (next : AfterValue) :
    (s.relocate f).write (table.relocate f) (f span) x (v.relocate f) (result.relocate f)
      (next.relocate f) = (s.write table span x v result next).relocate f := by
  unfold write
  rw [frameOf_relocate s span x hf]
  cases s.frameOf table span x with
  | error t => rfl
  | ok frame =>
    have hheap := s.heap.setIn_relocate f x v frame
    show State.mk _ _ _ _ = State.mk _ _ _ _
    exact congrArg (State.mk _ _ _) hheap

/-- A moved variable is stepped alike. -/
theorem stepVariable_relocate (side : Side) (op : StepOp) (next : AfterValue) :
    (s.relocate f).stepVariable (table.relocate f) (f span) side op x (next.relocate f) =
      (s.stepVariable table span side op x next).relocate f := by
  have hlookup := lookup_relocate s span x hf table
  unfold stepVariable
  cases h : s.lookup table span x with
  | error t =>
    rw [hlookup, h]
    rfl
  | ok old =>
    rw [h] at hlookup
    change _ = Except.ok (old.relocate f) at hlookup
    simp only [hlookup, Value.stepped_relocate]
    cases old.stepped op with
    | error cause => rfl
    | ok new => cases side <;> exact write_relocate s span x hf table new _ next

/-- A method of the superclass is found alike from a moved reference. -/
theorem readSuper_relocate (next : AfterValue) :
    (s.relocate f).readSuper (table.relocate f) (f span) x (next.relocate f) =
      (s.readSuper table span x next).relocate f := by
  unfold readSuper
  rw [Distances.lookup_relocate hf]
  cases table.lookup span with
  | none => rfl
  | some depth =>
    simp only [heap_relocate, scope_relocate, Heap.getAt_relocate]
    rcases habove : s.heap.getAt s.scope "super" depth with a | (- | above)
    · exact s.anomaly_relocate f (Heap.getAt_of_error f habove)
    · rfl
    cases above with
    | cls above =>
      cases depth with
      | zero => rfl
      | succ inner =>
        simp only [Except.map, Option.map_some, Value.relocate]
        rcases hthis : s.heap.getAt s.scope "this" inner with a | (- | this)
        · exact s.anomaly_relocate f (Heap.getAt_of_error f hthis)
        · rfl
        cases this with
        | object id c =>
          simp only [Value.relocate, Option.map_some, Class.method?_relocate]
          cases above.method? x with
          | none =>
            exact congrArg (fun c ↦ fault _ _ (.noSuchAttribute c x)) (above.name_relocate f)
          | some method => exact s.giveMethod_relocate f method (.object id c) next
        | _ => rfl
    | _ => rfl

/-! ### One step -/

/-- A moved expression begins with the same step, moved. -/
theorem evaluate_relocate (e : Expr) (next : AfterValue) :
    (s.relocate f).evaluate (table.relocate f) (e.relocate f) (next.relocate f) =
      (s.evaluate table e next).relocate f := by
  cases e with
  | literal _ value => exact congrArg (fun v ↦ give _ v _) (Value.ofLiteral_relocate f value).symm
  | var | this => exact read_relocate s _ _ hf table next
  | step => exact stepVariable_relocate s _ _ hf table _ _ next
  | super => exact readSuper_relocate s _ _ hf table next
  | call span callee es =>
    rw [Expr.relocate, Expr.relocateAll_eq]
    rfl
  | _ => rfl

/-- What waits for a moved value goes on with the same step, moved. -/
theorem accept_relocate (v : Value) (next : AfterValue) :
    (s.relocate f).accept (table.relocate f) (v.relocate f) (next.relocate f) =
      (s.accept table v next).relocate f := by
  cases next with
  | print span next =>
    show Progress.waiting (.writeLine (v.relocate f).display) _ = _
    rw [Value.display_relocate]
    refine congrArg (Progress.waiting _) (funext fun written ↦ ?_)
    cases written <;> rfl
  | define x next => exact congrArg Progress.moved (s.bindName_relocate f x v next)
  | inherit span x methods next =>
    cases v with
    | cls above =>
      exact congrArg Progress.moved (s.declareClass_relocate f x (some above) methods next)
    | object id c =>
      exact congrArg (fun name ↦ Progress.moved (fault _ _ (.superclassNotAClass name)))
        (c.name_relocate f)
    | _ => rfl
  | choose yes no next =>
    simp only [AfterValue.relocate, accept, Value.isTruthy_relocate]
    split
    · rfl
    · cases no <;> rfl
  | test loop next =>
    simp only [AfterValue.relocate, accept, Value.isTruthy_relocate]
    split <;> rfl
  | round loop next => exact congrArg Progress.moved (s.round_relocate f loop next)
  | assign span x next => exact congrArg Progress.moved (write_relocate s span x hf table v v next)
  | unary span op next =>
    simp only [AfterValue.relocate, accept, Value.unary_relocate]
    exact congrArg Progress.moved (s.giveOr_relocate f span (v.unary op) next)
  | left span op e next =>
    simp only [AfterValue.relocate, accept, Value.decides_relocate]
    split <;> rfl
  | right span op left next =>
    simp only [AfterValue.relocate, accept, Value.binary_relocate]
    exact congrArg Progress.moved (s.giveOr_relocate f span (left.binary op v) next)
  | callee span es next =>
    simp only [AfterValue.relocate, accept, Value.callable_relocate]
    cases v.callable with
    | error cause => rfl
    | ok _ => exact s.nextArgument_relocate f span v [] es next
  | argument span callee vs es next =>
    exact s.nextArgument_relocate f span callee (v :: vs) es next
  | property span x next => exact congrArg Progress.moved (s.readProperty_relocate f span x v next)
  | target span x e next =>
    simp only [AfterValue.relocate, accept, Value.asObject_relocate]
    rcases v.asObject x with cause | ⟨id, c⟩ <;> rfl
  | field i x next =>
    exact congrArg (fun h ↦ Progress.moved (State.mk _ _ _ h)) (s.heap.setField_relocate f x v i)
  | _ => rfl

/-- The machine takes the same step at the other places. -/
theorem step_relocate :
    (s.relocate f).step (table.relocate f) = (s.step table).relocate f := by
  obtain ⟨control, scope, depth, heap⟩ := s
  cases control with
  | execute stmt next => exact congrArg Progress.moved (execute_relocate f _ stmt next)
  | evaluate e next => exact congrArg Progress.moved (evaluate_relocate _ hf table e next)
  | value v next => exact accept_relocate _ hf table v next
  | ended flow next => exact resume_relocate f _ flow next
  | stuck t => rfl

/-- The machine asks the same of the outside and ends in the same way. -/
theorem run_relocate (n : Nat) (w : World) :
    (s.relocate f).run (table.relocate f) n w =
      let (w', heap, ending) := s.run table n w
      (w', heap.relocate f, ending.map (Ending.relocate f)) := by
  induction n generalizing s w with
  | zero => rfl
  | succ n ih =>
    rw [run, run, step_relocate s hf table]
    cases s.step table with
    | moved s' => exact ih s' w
    | waiting request resume => exact ih _ _
    | stopped ending heap => rfl

end Table

end State

end LoxLang
