import LoxLang.Proofs.Causes
import LoxLang.Proofs.Runs

/-!
# What a step can do

A step changes what is done next, and besides one of a few things in the heap, the scope or the
depth. They are listed once (`State.Moves`), and every step is on the list (`State.Steps.moves`). So
what is said of runs need not be proved for one kind of statement or expression after another, but
only for each entry of the list.

Of the pending work the list says what it is still to do to scopes, calls and fields
(`AfterValue.duties`), and which values it keeps (`AfterValue.values`). Most steps change neither,
except that they keep another of the values that there are (`State.Has`).

The list does not say which code is pending. For that it is enough to know how an expression ends
(`State.Answers`) and what a call does (`State.Called`), as both leave the pending work alone.
-/

namespace LoxLang

/-! ### Pending work -/

/-- An assignment that waits for its value: the instance, the field, and what comes then. -/
structure Assignment where
  /-- The number of the instance. -/
  object : Nat
  /-- The name of the field. -/
  name : String
  /-- What is done with the value afterwards. -/
  next : AfterValue

/-- What pending work is still to do to scopes, calls and fields. -/
inductive Duty where
  /-- To go back to the scope. -/
  | leave (scope : Chain)
  /-- To end the call of the function, and go back to the scope of the caller. -/
  | leaveCall (scope : Chain) (closure : Closure)
  /-- To assign a field. -/
  | assign (assignment : Assignment)

mutual

/-- What pending work is still to do, the innermost first. -/
def AfterValue.duties : AfterValue → List Duty
  | .discard next | .print _ next | .define _ next | .inherit _ _ _ next | .choose _ _ next
  | .test _ next | .round _ next | .returns next => next.duties
  | .assign _ _ next | .unary _ _ next | .left _ _ _ next | .right _ _ _ next | .callee _ _ next
  | .argument _ _ _ _ next | .property _ _ next | .target _ _ _ next
  | .construct _ next => next.duties
  | .field object name next => .assign ⟨object, name, next⟩ :: next.duties

@[inherit_doc AfterValue.duties]
def AfterStmt.duties : AfterStmt → List Duty
  | .done => []
  | .sequence _ next | .enterLoop _ next | .endRound _ next => next.duties
  | .leave scope next => .leave scope :: next.duties
  | .leaveCall scope closure next => .leaveCall scope closure :: next.duties

end

mutual

/-- The values that pending work keeps. -/
def AfterValue.values : AfterValue → List Value
  | .discard next | .print _ next | .define _ next | .inherit _ _ _ next | .choose _ _ next
  | .test _ next | .round _ next | .returns next => next.values
  | .assign _ _ next | .unary _ _ next | .left _ _ _ next | .callee _ _ next
  | .property _ _ next | .target _ _ _ next | .field _ _ next => next.values
  | .right _ _ v next | .construct v next => v :: next.values
  | .argument _ callee known _ next => callee :: (known ++ next.values)

@[inherit_doc AfterValue.values]
def AfterStmt.values : AfterStmt → List Value
  | .done => []
  | .sequence _ next | .leave _ next | .enterLoop _ next | .endRound _ next => next.values
  | .leaveCall _ _ next => next.values

end

/-- The value that a statement returns. -/
def Flow.values : Flow → List Value
  | .normal => []
  | .returned v => [v]

namespace Control

/-- What is still to do when this is done. -/
def duties : Control → List Duty
  | execute _ next | ended _ next => next.duties
  | evaluate _ next | value _ next => next.duties
  | stuck _ => []

/-- The values of what is done next, and of what is pending. -/
def values : Control → List Value
  | execute _ next => next.values
  | evaluate _ next => next.values
  | value v next => v :: next.values
  | ended flow next => flow.values ++ next.values
  | stuck _ => []

/-- If a state with this control is stuck on a fault, that fault. -/
def fault? : Control → Option Fault
  | stuck (.fault f) => some f
  | _ => none

end Control

/-! ### What a step is about -/

/-- Whether the value was not made by the program. -/
def Value.Plain : Value → Prop
  | .nil | .bool _ | .number _ | .string _ | .native _ => True
  | .function .. | .cls _ | .object .. => False

/-- The names of the parameters that a call binds. -/
def Value.parameters : Value → List String
  | .function _ c => c.function.params.map (·.text)
  | .cls c => c.initializer?.elim [] fun i ↦ i.function.params.map (·.text)
  | _ => []

/-- All states that may come next are as they should be, whatever is replied; or there is none,
since the program is done. -/
def Progress.Ensures (p : State → Prop) : Progress → Prop
  | .moved s => p s
  | .waiting _ resume => ∀ reply, p (resume reply)
  | .stopped ending _ => ending = .done

/-- What is ensured of all next states may be weakened. -/
theorem Progress.Ensures.imp {p q : State → Prop} {progress : Progress} (h : progress.Ensures p)
    (hpq : ∀ s, p s → q s) : progress.Ensures q := by
  cases progress with
  | moved s => exact hpq s h
  | waiting request resume => exact fun reply ↦ hpq _ (h reply)
  | stopped ending heap => exact h

namespace State

/-- The call that the next step makes: its place, what is called and the arguments. -/
def calling? (s : State) : Option (Span × Value × List Value) :=
  match s.control with
  | .value callee (.callee span [] _) => some (span, callee, [])
  | .value v (.argument span callee known [] _) => some (span, callee, (v :: known).reverse)
  | _ => none

/-- The names of the variables that a step may write. -/
def binds (s : State) : List String :=
  match s.control with
  | .execute (.varDecl _ x _) _ | .execute (.classDecl _ x _ _) _ | .evaluate (.step _ _ _ x) _
  | .value _ (.define x _) | .value _ (.inherit _ x _ _) | .value _ (.assign _ x _) => [x]
  | .execute (.funDecl f) _ => [f.name]
  | .value callee (.callee _ [] _) => callee.parameters
  | .value _ (.argument _ callee _ [] _) => callee.parameters
  | _ => []

/-- The step binds the method to the instance: a property of the instance is read or a method of the
superclass, or the instance is made and its initializer called. -/
inductive Binds (table : Distances) (s s' : State) (m : Closure) (r : Value) : Prop
  | property {span : Span} {name : String} {k : AfterValue} {id : Nat} {c : Class}
      (hcontrol : s.control = .value (.object id c) (.property span name k))
      (hm : c.method? name = some m) (hr : r = .object id c) (hstep : s.step table = .moved s')
      (hs' : s' = s.giveMethod m r k)
  | super {span : Span} {name : String} {k : AfterValue} {above : Class} {d : Nat}
      (hcontrol : s.control = .evaluate (.super span name) k)
      (habove : s.heap.getAt s.scope "super" d = .ok (some (.cls above)))
      (hm : above.method? name = some m) (hstep : s.step table = .moved s')
      (hs' : s' = s.giveMethod m r k)
  | construct {span : Span} {c : Class} {arguments : List Value} {k : AfterValue}
      (hcall : s.calling? = some (span, .cls c, arguments)) (hm : c.initializer? = some m)
      (hr : r = .object s.heap.objects.size c) (hstep : s.step table = .moved s')
      (hs' : s' = s.construct span c arguments k)

/-- A step leads to one of the states that may come next. -/
theorem Steps.ensured {s s' : State} {table : Distances} {p : State → Prop}
    (hstep : s.Steps table s') (h : (s.step table).Ensures p) : p s' := by
  cases hstep with
  | moved hs =>
    rw [hs] at h
    exact h
  | replied hs hs' =>
    rw [hs] at h
    exact hs' ▸ h _

section Calling

variable {s : State} {table : Distances} {span : Span} {callee : Value} {vs : List Value}

/-- What is called, and the arguments, are values of what is done next. -/
theorem values_of_calling? (h : s.calling? = some (span, callee, vs)) :
    callee ∈ s.control.values ∧ ∀ v ∈ vs, v ∈ s.control.values := by
  unfold calling? at h
  split at h
  · rename_i hcontrol
    cases h
    rw [hcontrol]
    exact ⟨List.mem_cons_self, nofun⟩
  · rename_i v _ _ known _ hcontrol
    cases h
    rw [hcontrol]
    refine ⟨List.mem_cons_of_mem _ List.mem_cons_self, fun w hw ↦ ?_⟩
    rcases List.mem_cons.1 (List.mem_reverse.1 hw) with rfl | hw
    · exact List.mem_cons_self
    · exact List.mem_cons_of_mem _ (List.mem_cons_of_mem _ (List.mem_append_left _ hw))
  · cases h

/-- A call opens what its callee does, and binds the parameters. -/
theorem opens_of_calling? (h : s.calling? = some (span, callee, vs)) :
    s.binds = callee.parameters ∧ ∀ s', s.opens s' = callee.opens := by
  unfold calling? at h
  unfold binds opens
  split at h
  · rename_i hcontrol
    cases h
    simp only [hcontrol, implies_true, and_self]
  · rename_i hcontrol
    cases h
    simp only [hcontrol, implies_true, and_self]
  · cases h

end Calling

/-- The initializer of a class is bound to the new instance and entered. -/
theorem construct_eq_enter {s : State} {c : Class} {i : Closure} (hi : c.initializer? = some i)
    (span : Span) (vs : List Value) (k : AfterValue) : s.construct span c vs k =
      State.enter { s with heap := ((s.heap.newObject c).2.bindMethod i (s.heap.newObject c).1).2 }
        span (i.bind s.heap.frames.size) vs (.construct (.object s.heap.objects.size c) k) := by
  unfold construct
  rw [hi]
  rfl

/-! ### The list -/

/-- The value need not be made: it is plain, or the state contains it. -/
inductive Has (s : State) (v : Value) : Prop
  | plain (h : v.Plain)
  | control (h : v ∈ s.control.values)
  | frame {f : FrameId} {x : String} (h : (s.heap.frame f).get? x = some v)
  | field {id : Nat} {x : String} (h : (s.heap.fields id).get? x = some v)

/-- Nothing is to do but what is pending, and no values are kept but those that there are. -/
structure Pends (s : State) (duties : List Duty) (values : List Value) : Prop where
  duties : duties = s.control.duties
  values : ∀ v ∈ values, s.Has v

/-- After this has been done, the duties are left, and no values are kept but those that there are.
If this is a fault, its cause is an ordinary one. -/
structure Hands (s : State) (c : Control) (duties : List Duty) : Prop where
  duties : c.duties = duties ∨ ∃ t, c = .stuck t
  values : ∀ v ∈ c.values, s.Has v
  ordinary : ∀ f, c = .stuck (.fault f) → f.cause.IsOrdinary

/-- A call of the value enters the body of the function. That of a class is its initializer, bound
to a new instance. The heap is what there is then, and `k'` waits for the value of the body. -/
inductive Prepares (s : State) (k : AfterValue) : Value → Closure → Heap → AfterValue → Prop
  | function {id : Nat} {c : Closure} : Prepares s k (.function id c) c s.heap k
  | initializer {c : Class} {i : Closure} (hi : c.initializer? = some i) :
      Prepares s k (.cls c) (i.bind s.heap.frames.size)
        ((s.heap.newObject c).2.bindMethod i (.object s.heap.objects.size c)).2
        (.construct (.object s.heap.objects.size c) k)

/-- To enter a body changes no duty of the pending work. -/
theorem Prepares.duties {s : State} {k k' : AfterValue} {callee : Value} {c : Closure} {h : Heap}
    (hbody : s.Prepares k callee c h k') : k'.duties = k.duties := by
  cases hbody <;> rfl

/-- What one step can do. -/
inductive Moves (table : Distances) (s : State) : State → Prop
  /-- Nothing changes but what is done next. -/
  | goes {c : Control} (hc : s.Hands c s.control.duties) : Moves table s { s with control := c }
  /-- A variable is written. -/
  | writes {c : Control} {x : String} {v : Value} (hx : x ∈ s.binds) (hv : s.Has v)
      (hc : s.Hands c s.control.duties) (f : FrameId) :
      Moves table s { s with control := c, heap := s.heap.setIn f x v }
  /-- A function is made, -/
  | makes {f : FunDecl} {k : AfterValue} (hcontrol : s.control = .evaluate (.lambda f) k) :
      Moves table s (s.giveFunction ⟨f, s.scope, false⟩ k)
  /-- and bound to its name. -/
  | makesNamed {f : FunDecl} {l : AfterStmt} (hcontrol : s.control = .execute (.funDecl f) l) :
      Moves table s (s.declareFunction f l)
  /-- A class is made, -/
  | declares {span : Span} {x : String} {methods : List FunDecl} {l : AfterStmt}
      (hcontrol : s.control = .execute (.classDecl span x none methods) l) :
      Moves table s ((s.bindName x .nil l).declareClass x none methods l)
  /-- or one with a superclass. -/
  | inherits {span : Span} {x : String} {above : Class} {methods : List FunDecl} {l : AfterStmt}
      (hcontrol : s.control = .value (.cls above) (.inherit span x methods l)) :
      Moves table s (s.declareClass x (some above) methods l)
  /-- A method is bound to an instance. -/
  | binds {m : Closure} {id : Nat} {c : Class} {k : AfterValue}
      (hbinds : s.Binds table (s.giveMethod m (.object id c) k) m (.object id c))
      (hopens : s.opens (s.giveMethod m (.object id c) k) = [.receiver m.function.span])
      (hobject : s.Has (.object id c)) (next : s.Pends k.duties k.values) :
      Moves table s (s.giveMethod m (.object id c) k)
  /-- A scope is entered, -/
  | enters {place : Place} {c : Control}
      (hplace : ∃ span, place = .block span ∨ place = .loop span)
      (hopens : ∀ s', s.opens s' = [place])
      (hc : s.Hands c (.leave s.scope :: s.control.duties)) :
      Moves table s { s.enterScope with control := c }
  /-- or left. -/
  | leaves {outer : Chain} {duties : List Duty} {c : Control}
      (hduties : s.control.duties = .leave outer :: duties) (hc : s.Hands c duties) :
      Moves table s { s with control := c, scope := outer }
  /-- A call enters a body, -/
  | calls {span : Span} {callee : Value} {vs : List Value} {k k' : AfterValue} {c : Closure}
      {h : Heap} (hcall : s.calling? = some (span, callee, vs))
      (haccepts : callee.accepts vs.length = .ok ()) (hbody : s.Prepares k callee c h k')
      (next : s.Pends k.duties k.values) (hdepth : s.depth < callLimit) :
      Moves table s
        { control := .ended .normal (.sequence c.function.body (.leaveCall s.scope c k'))
          scope := c.scope.push h.frames.size
          depth := s.depth + 1
          heap := (h.child c.scope (argumentTable c.function.params vs)).2 }
  /-- or is nested too deep. -/
  | tooDeep {span : Span} {callee : Value} {vs : List Value} {k k' : AfterValue} {c : Closure}
      {h : Heap} (hcall : s.calling? = some (span, callee, vs))
      (haccepts : callee.accepts vs.length = .ok ()) (hbody : s.Prepares k callee c h k')
      (hdepth : callLimit ≤ s.depth) :
      Moves table s
        { s with control := .stuck (.fault ⟨.callsTooDeep callLimit, span⟩), heap := h }
  /-- An instance is made that needs no initializer. -/
  | constructs {span : Span} {c : Class} {vs : List Value} {k : AfterValue}
      (hcall : s.calling? = some (span, .cls c, vs))
      (haccepts : (Value.cls c).accepts vs.length = .ok ()) (hnone : c.initializer? = none)
      (next : s.Pends k.duties k.values) :
      Moves table s { s with
        control := .value (.object s.heap.objects.size c) k
        heap := (s.heap.newObject c).2 }
  /-- A call ends. -/
  | returns {outer : Chain} {closure : Closure} {duties : List Duty} {c : Control}
      (hduties : s.control.duties = .leaveCall outer closure :: duties) (hc : s.Hands c duties) :
      Moves table s { s with control := c, scope := outer, depth := s.depth - 1 }
  /-- An assignment to a field begins, -/
  | checks {id : Nat} {c : Class} {span : Span} {x : String} {e : Expr} {k : AfterValue}
      (hcontrol : s.control = .value (.object id c) (.target span x e k)) :
      Moves table s { s with control := .evaluate e (.field id x k) }
  /-- and is made. -/
  | assigns {v : Value} {id : Nat} {x : String} {k : AfterValue}
      (hcontrol : s.control = .value v (.field id x k)) :
      Moves table s { s with control := .value v k, heap := s.heap.setField id x v }

/-! ### How an expression ends -/

/-- The value of an expression is given to what is pending, or there is a fault at the place of the
expression or an anomaly. No variable is written but one of these names. -/
inductive Answers (table : Distances) (s : State) (span : Span) (names : List String)
    (k : AfterValue) : State → Prop
  | gives (v : Value) : Answers table s span names k (s.give v k)
  | writes {x : String} {f : FrameId} (hx : x ∈ names) (hf : s.frameOf table span x = .ok f)
      (v result : Value) : Answers table s span names k (s.writeIn f x v result k)
  | binds (m : Closure) (this : Value) : Answers table s span names k (s.giveMethod m this k)
  | faults (cause : Cause) : Answers table s span names k (s.fault span cause)
  | breaks (a : Anomaly) : Answers table s span names k (s.anomaly a)

namespace Answers

variable {s : State} {table : Distances} {span : Span} {names : List String} {k : AfterValue}

/-- A binding that is missing is a fault at the place of the expression, or an anomaly. -/
theorem of_isMissing {x : String} {t : Trouble} (ht : t.IsMissing span x) :
    s.Answers table span names k { s with control := .stuck t } := by
  obtain rfl | ⟨a, rfl⟩ := ht
  · exact .faults _
  · exact .breaks a

/-- A value or a cause of a fault is an answer. -/
theorem giveOr (table : Distances) (r : Except Cause Value) :
    s.Answers table span [] k (s.giveOr span r k) := by
  cases r with
  | ok v => exact .gives v
  | error cause => exact .faults cause

/-- A variable is read, and none is written. -/
theorem read (x : String) : s.Answers table span [] k (s.read table span x k) := by
  unfold State.read
  split
  · exact .gives _
  · rename_i t ht
    exact of_isMissing (isMissing_of_lookup ht)

/-- Only the variable that is assigned is written. -/
theorem write (x : String) (v result : Value) :
    s.Answers table span [x] k (s.write table span x v result k) := by
  unfold State.write
  split
  · rename_i f hf
    exact .writes List.mem_cons_self hf v result
  · rename_i t ht
    exact of_isMissing (isMissing_of_frameOf ht)

/-- Only the variable that is stepped is written. -/
theorem stepVariable (side : Side) (op : StepOp) (x : String) :
    s.Answers table span [x] k (s.stepVariable table span side op x k) := by
  unfold State.stepVariable
  split
  · rename_i t ht
    exact of_isMissing (isMissing_of_lookup ht)
  · split
    · exact .faults _
    · exact write x _ _

/-- A method of the superclass is bound to the receiver, and no variable is written. -/
theorem readSuper (x : String) : s.Answers table span [] k (s.readSuper table span x k) := by
  unfold State.readSuper
  repeat' split
  all_goals first | exact .breaks _ | exact .faults _ | exact .binds _ _

/-- A property is read, and no variable is written. -/
theorem readProperty (table : Distances) (x : String) (v : Value) :
    s.Answers table span [] k (s.readProperty span x v k) := by
  unfold State.readProperty
  repeat' split
  all_goals first | exact .faults _ | exact .gives _ | exact .binds _ _

end Answers

/-- What a call does: the value is given at once, the body is entered, or there is a fault. -/
inductive Called (s : State) (span : Span) (callee : Value) (vs : List Value) (k : AfterValue) :
    State → Prop
  | gives {v : Value} (hv : v.Plain) : Called s span callee vs k (s.give v k)
  | unreadable : Called s span callee vs k (s.fault span (.unreadable standardInput))
  | refused {cause : Cause} (hcause : callee.accepts vs.length = .error cause) :
      Called s span callee vs k (s.fault span cause)
  | constructs {c : Class} (hcallee : callee = .cls c)
      (haccepts : callee.accepts vs.length = .ok ()) (hnone : c.initializer? = none) :
      Called s span callee vs k { s with
        control := .value (.object s.heap.objects.size c) k
        heap := (s.heap.newObject c).2 }
  | enters {k' : AfterValue} {c : Closure} {h : Heap}
      (haccepts : callee.accepts vs.length = .ok ()) (hbody : s.Prepares k callee c h k')
      (hdepth : s.depth < callLimit) : Called s span callee vs k
        { control := .ended .normal (.sequence c.function.body (.leaveCall s.scope c k'))
          scope := c.scope.push h.frames.size
          depth := s.depth + 1
          heap := (h.child c.scope (argumentTable c.function.params vs)).2 }
  | tooDeep {k' : AfterValue} {c : Closure} {h : Heap}
      (haccepts : callee.accepts vs.length = .ok ()) (hbody : s.Prepares k callee c h k')
      (hdepth : callLimit ≤ s.depth) : Called s span callee vs k
        { s with control := .stuck (.fault ⟨.callsTooDeep callLimit, span⟩), heap := h }

namespace Called

variable {s : State} {span : Span} {callee : Value} {vs : List Value} {k k' : AfterValue}

/-- Once its body is prepared, a function is entered, or the calls are too deep. -/
theorem enter {c : Closure} {h : Heap} (haccepts : callee.accepts vs.length = .ok ())
    (hbody : s.Prepares k callee c h k') :
    s.Called span callee vs k (State.enter { s with heap := h } span c vs k') := by
  unfold State.enter
  by_cases hdepth : callLimit ≤ s.depth
  · rw [if_pos hdepth]
    exact .tooDeep haccepts hbody hdepth
  · rw [if_neg hdepth]
    exact .enters haccepts hbody (Nat.lt_of_not_le hdepth)

/-- A call of a class gives the new instance at once, or enters the initializer. -/
theorem construct {c : Class} (haccepts : (Value.cls c).accepts vs.length = .ok ()) :
    s.Called span (.cls c) vs k (s.construct span c vs k) := by
  cases hi : c.initializer? with
  | none =>
    unfold State.construct
    rw [hi]
    exact .constructs rfl haccepts hi
  | some i =>
    rw [construct_eq_enter hi]
    exact enter haccepts (.initializer hi)

end Called

/-- Whatever is called, the call does one of the three things. -/
theorem call_called (s : State) (span : Span) (callee : Value) (vs : List Value) (k : AfterValue) :
    (s.call span callee vs k).Ensures (s.Called span callee vs k) := by
  unfold call
  cases haccepts : callee.accepts vs.length with
  | error cause => exact .refused haccepts
  | ok _ =>
    cases callee with
    | function id c => exact Called.enter haccepts .function
    | cls c => exact Called.construct haccepts
    | native n =>
      cases n with
      | clock => exact fun _ ↦ .gives trivial
      | input =>
        intro reply
        cases reply with
        | invalid => exact .unreadable
        | _ => exact .gives trivial
    | _ => cases haccepts

/-! ### All steps are on it -/

section Has

variable {s : State} {table : Distances}

/-- What is done next has its own duties and values. -/
theorem Pends.of_control {c : Control} (hcontrol : s.control = c) : s.Pends c.duties c.values :=
  ⟨congrArg Control.duties hcontrol.symm, fun _ hv ↦ .control (hcontrol ▸ hv)⟩

/-- What a variable at a distance holds is in the heap. -/
theorem Has.of_getAt {scope : Chain} {x : String} {d : Nat} {v : Value}
    (hv : s.heap.getAt scope x d = .ok (some v)) : s.Has v := by
  unfold Heap.getAt at hv
  cases hf : Heap.ancestor scope d with
  | error a =>
    rw [hf] at hv
    cases hv
  | ok f =>
    rw [hf] at hv
    exact .frame (Except.ok.inj hv)

/-- What a name is bound to is in the heap. -/
theorem Has.of_lookup {span : Span} {x : String} {v : Value}
    (hv : s.lookup table span x = .ok v) : s.Has v := by
  unfold lookup at hv
  split at hv
  · cases hv
  · split at hv
    · rename_i hw
      cases hv
      exact .frame hw
    · cases hv

/-- What an operator gives is a number, a string or a truth value, or one of the operands. -/
theorem Has.of_unary {op : UnaryOp} {v w : Value} (hw : v.unary op = .ok w) : s.Has w := by
  unfold Value.unary at hw
  split at hw <;> cases hw <;> exact .plain trivial

/-- What a binary operator gives is plain, or one of the operands. -/
theorem Has.of_binary {op : BinaryOp} {left right w : Value} (hright : s.Has right)
    (hw : left.binary op right = .ok w) : s.Has w := by
  unfold Value.binary at hw
  split at hw <;> cases hw <;> first | exact hright | exact .plain trivial

/-- What a step operator gives is a number. -/
theorem Has.of_stepped {op : StepOp} {v w : Value} (hw : v.stepped op = .ok w) : s.Has w := by
  unfold Value.stepped at hw
  split at hw <;> cases hw <;> exact .plain trivial

end Has

namespace Moves

variable {s : State} {table : Distances} {k : AfterValue} {l : AfterStmt}

/-! #### Ways to go on -/

theorem on {c : Control} (next : s.Pends c.duties c.values) (hc : c.fault? = none) :
    s.Moves table { s with control := c } :=
  .goes ⟨.inl next.duties, next.values, fun f hf ↦ by rw [hf] at hc; cases hc⟩

/-- The program is stuck on an ordinary fault or an anomaly. -/
theorem sticks {t : Trouble} (ht : ∀ f, t = .fault f → f.cause.IsOrdinary) :
    s.Moves table { s with control := .stuck t } :=
  .goes ⟨.inr ⟨t, rfl⟩, nofun, fun f hf ↦ ht f (Control.stuck.inj hf)⟩

theorem fault {cause : Cause} (h : cause.IsOrdinary) (span : Span) :
    s.Moves table (s.fault span cause) :=
  sticks fun f hf ↦ by cases hf; exact h

theorem anomaly (a : Anomaly) : s.Moves table (s.anomaly a) := sticks nofun

/-- A value that the state has is given to what is pending. -/
theorem give (next : s.Pends k.duties k.values) {v : Value} (hv : s.Has v) :
    s.Moves table (s.give v k) :=
  on (c := .value v k) ⟨next.duties, List.forall_mem_cons.2 ⟨hv, next.values⟩⟩ rfl

/-- A value that the state has is given to what is pending, or its cause is an ordinary one. -/
theorem giveOr (next : s.Pends k.duties k.values) (span : Span) {r : Except Cause Value}
    (hr : FailsOrdinarily r) (hv : ∀ v, r = .ok v → s.Has v) :
    s.Moves table (s.giveOr span r k) := by
  cases r with
  | ok v => exact give next (hv v rfl)
  | error cause => exact fault (hr cause rfl) span

/-- A statement ends normally. -/
theorem finish (next : s.Pends l.duties l.values) : s.Moves table (s.finish .normal l) :=
  on (c := .ended .normal l) next rfl

/-- A statement returns a value that the state has. -/
theorem finishWith (next : s.Pends l.duties l.values) {v : Value} (hv : s.Has v) :
    s.Moves table (s.finish (.returned v) l) :=
  on (c := .ended (.returned v) l) ⟨next.duties, List.forall_mem_cons.2 ⟨hv, next.values⟩⟩ rfl

/-- A loop tests its condition, or begins its body if it has none. -/
theorem round (next : s.Pends l.duties l.values) (loop : Loop) :
    s.Moves table (s.round loop l) := by
  unfold State.round
  split
  · exact on (c := .execute _ _) next rfl
  · exact on (c := .evaluate _ _) next rfl

/-! #### Variables -/

/-- A variable is read. -/
theorem read (next : s.Pends k.duties k.values) (span : Span) (x : String) :
    s.Moves table (s.read table span x k) := by
  unfold State.read
  split
  · rename_i v hv
    exact give next (.of_lookup hv)
  · rename_i t ht
    exact sticks fun f hf ↦ (isMissing_of_lookup (hf ▸ ht)).isOrdinary

/-- A new variable is bound to a value that the state has. -/
theorem bindName {x : String} (hx : x ∈ s.binds) (next : s.Pends l.duties l.values) {v : Value}
    (hv : s.Has v) : s.Moves table (s.bindName x v l) :=
  .writes (c := .ended .normal l) hx hv ⟨.inl next.duties, next.values, nofun⟩ s.scope.frame

/-- A variable is assigned a value that the state has. -/
theorem write {x : String} (hx : x ∈ s.binds) (next : s.Pends k.duties k.values) (span : Span)
    {v result : Value} (hv : s.Has v) (hresult : s.Has result) :
    s.Moves table (s.write table span x v result k) := by
  unfold State.write
  split
  · rename_i f _
    exact .writes (c := .value result k) hx hv
      ⟨.inl next.duties, List.forall_mem_cons.2 ⟨hresult, next.values⟩, nofun⟩ f
  · rename_i t ht
    exact sticks fun f hf ↦ (isMissing_of_frameOf (hf ▸ ht)).isOrdinary

/-- A variable is stepped. -/
theorem stepVariable {x : String} (hx : x ∈ s.binds) (next : s.Pends k.duties k.values)
    (span : Span) (side : Side) (op : StepOp) :
    s.Moves table (s.stepVariable table span side op x k) := by
  unfold State.stepVariable
  split
  · rename_i t ht
    exact sticks fun f hf ↦ (isMissing_of_lookup (hf ▸ ht)).isOrdinary
  · rename_i old hold
    split
    · rename_i cause hcause
      exact fault (Value.fails_stepped op old cause hcause) span
    · rename_i new hnew
      cases side with
      | before => exact write hx next span (.of_stepped hnew) (.of_stepped hnew)
      | after => exact write hx next span (.of_stepped hnew) (.of_lookup hold)

/-! #### Methods -/

/-- A method of the superclass is bound to the receiver. -/
theorem readSuper {span : Span} {x : String} (hcontrol : s.control = .evaluate (.super span x) k) :
    s.Moves table (s.readSuper table span x k) := by
  have next : s.Pends k.duties k.values := .of_control hcontrol
  have hstep : s.step table = .moved (s.readSuper table span x k) := by
    unfold step
    rw [hcontrol]
    rfl
  generalize hs' : s.readSuper table span x k = s' at hstep ⊢
  unfold State.readSuper at hs'
  split at hs'
  · exact hs' ▸ anomaly _
  · split at hs'
    · exact hs' ▸ anomaly _
    · rename_i above habove
      split at hs'
      · exact hs' ▸ anomaly _
      · split at hs'
        · exact hs' ▸ anomaly _
        · rename_i id c hthis
          split at hs'
          · exact hs' ▸ fault ⟨rfl, rfl⟩ span
          · rename_i m hm
            subst hs'
            refine .binds (.super hcontrol habove hm hstep rfl) ?_ (.of_getAt hthis) next
            unfold opens
            rw [hcontrol]
            rfl
        · exact hs' ▸ anomaly _
    · exact hs' ▸ anomaly _

/-- A field is read, or a method is bound to the instance. -/
theorem readProperty {span : Span} {x : String} {v : Value}
    (hcontrol : s.control = .value v (.property span x k)) :
    s.Moves table (s.readProperty span x v k) := by
  have next : s.Pends k.duties k.values :=
    ⟨congrArg Control.duties hcontrol.symm, fun w hw ↦ .control
      (hcontrol ▸ List.mem_cons_of_mem v hw)⟩
  have hstep : s.step table = .moved (s.readProperty span x v k) := by
    unfold step
    rw [hcontrol]
    rfl
  generalize hs' : s.readProperty span x v k = s' at hstep ⊢
  unfold State.readProperty at hs'
  cases v with
  | object id c =>
    simp only [Value.asObject] at hs'
    cases hproperty : s.heap.property id c x with
    | error cause =>
      rw [hproperty] at hs'
      exact hs' ▸ fault (Heap.fails_property _ _ _ x cause hproperty) span
    | ok found =>
      rw [hproperty] at hs'
      unfold Heap.property at hproperty
      cases found with
      | field v =>
        -- the value of a field is in the heap
        split at hproperty
        · rename_i w hw
          cases hproperty
          exact hs' ▸ give next (.field hw)
        · split at hproperty <;> cases hproperty
      | method m =>
        split at hproperty
        · cases hproperty
        · split at hproperty
          · rename_i m' hm
            cases hproperty
            subst hs'
            refine .binds (.property hcontrol hm rfl hstep rfl) ?_ (.control ?_) next
            · unfold opens
              rw [hcontrol]
              rfl
            · rw [hcontrol]
              exact List.mem_cons_self
          · cases hproperty
  | _ =>
    subst hs'
    exact fault ⟨rfl, rfl⟩ span

/-! #### Calls -/

/-- Each kind of callee is called by a move on the list. -/
theorem call {span : Span} {v : Value} {vs : List Value} (hcall : s.calling? = some (span, v, vs))
    (next : s.Pends k.duties k.values) : (s.call span v vs k).Ensures (s.Moves table) := by
  refine (s.call_called span v vs k).imp fun s' h ↦ ?_
  cases h with
  | gives hv => exact give next (.plain hv)
  | unreadable => exact fault ⟨rfl, rfl⟩ span
  | refused hcause => exact fault (v.fails_accepts _ _ hcause) span
  | constructs hcallee haccepts hnone =>
    subst hcallee
    exact .constructs hcall haccepts hnone next
  | enters haccepts hbody hdepth => exact .calls hcall haccepts hbody next hdepth
  | tooDeep haccepts hbody hdepth => exact .tooDeep hcall haccepts hbody hdepth

/-- What a call returns is a value of its body, its receiver, or `nil`. -/
theorem leaveCall {outer : Chain} {closure : Closure} {flow : Flow}
    (hcontrol : s.control = .ended flow (.leaveCall outer closure k)) :
    s.Moves table (s.leaveCall outer closure flow k) := by
  have pending : s.Pends (.leaveCall outer closure :: k.duties) (flow.values ++ k.values) :=
    .of_control hcontrol
  obtain ⟨hflow, hvalues⟩ := List.forall_mem_append.1 pending.values
  have give {v : Value} (hv : s.Has v) : s.Moves table
      { s with control := .value v k, scope := outer, depth := s.depth - 1 } :=
    .returns pending.duties.symm ⟨.inl rfl, List.forall_mem_cons.2 ⟨hv, hvalues⟩, nofun⟩
  have anomaly (a : Anomaly) : s.Moves table
      { s with control := .stuck (.anomaly a), scope := outer, depth := s.depth - 1 } :=
    .returns pending.duties.symm ⟨.inr ⟨_, rfl⟩, nofun, nofun⟩
  unfold State.leaveCall
  dsimp only
  split
  · split
    · rename_i hthis
      exact give (.of_getAt hthis)
    · exact anomaly _
  · cases flow with
    | normal => exact give (.plain trivial)
    | returned v => exact give (hflow v List.mem_cons_self)

/-! #### One step -/

/-- A scope is entered, for a block or a loop. -/
theorem enterScope (next : s.Pends l.duties l.values) {place : Place}
    (hplace : ∃ span, place = .block span ∨ place = .loop span)
    (hopens : ∀ s', s.opens s' = [place]) {c : Control}
    (hduties : c.duties = .leave s.scope :: l.duties) (hvalues : c.values = l.values)
    (hc : c.fault? = none) : s.Moves table { s.enterScope with control := c } :=
  .enters hplace hopens ⟨.inl (by rw [hduties, next.duties]), hvalues ▸ next.values,
    fun f hf ↦ by rw [hf] at hc; cases hc⟩

/-- Each kind of statement begins with a move on the list. -/
theorem execute {stmt : Stmt} (hcontrol : s.control = .execute stmt l) :
    s.Moves table (s.execute stmt l) := by
  have next : s.Pends l.duties l.values := .of_control hcontrol
  cases stmt with
  | expression span e => exact on (c := .evaluate e (.discard l)) next rfl
  | print span e => exact on (c := .evaluate e (.print span l)) next rfl
  | varDecl span x value =>
    cases value with
    | none => exact bindName (v := .nil) (by simp [State.binds, hcontrol]) next (.plain trivial)
    | some e => exact on (c := .evaluate e (.define x l)) next rfl
  | funDecl f => exact .makesNamed hcontrol
  | classDecl span x parent methods =>
    cases parent with
    | none => exact .declares hcontrol
    | some parent =>
      exact .writes (c := .evaluate parent.toExpr (.inherit parent.span x methods l))
        (v := .nil) (by simp [State.binds, hcontrol]) (.plain trivial)
        ⟨.inl next.duties, next.values, nofun⟩ s.scope.frame
  | block span body =>
    refine enterScope (c := .ended .normal (.sequence body (.leave s.scope l))) next
      ⟨span, .inl rfl⟩ (fun s' ↦ ?_) rfl rfl rfl
    simp only [opens, hcontrol]
  | conditional span condition yes no =>
    exact on (c := .evaluate condition (.choose yes no l)) next rfl
  | whileLoop span condition body => exact round next ⟨some condition, none, body⟩
  | forLoop span init condition step body =>
    have hopens (s' : State) : s.opens s' = [.loop span] := by simp only [opens, hcontrol]
    cases init with
    | some init =>
      exact enterScope (c := .execute init (.enterLoop ⟨condition, step, body⟩ (.leave s.scope l)))
        next ⟨span, .inr rfl⟩ hopens rfl rfl rfl
    | none =>
      cases condition with
      | none =>
        exact enterScope (c := .execute body (.endRound ⟨none, step, body⟩ (.leave s.scope l)))
          next ⟨span, .inr rfl⟩ hopens rfl rfl rfl
      | some e =>
        exact enterScope (c := .evaluate e (.test ⟨some e, step, body⟩ (.leave s.scope l)))
          next ⟨span, .inr rfl⟩ hopens rfl rfl rfl
  | returns span value =>
    cases value with
    | none => exact finishWith next (.plain trivial)
    | some e => exact on (c := .evaluate e (.returns l)) next rfl

/-- Each kind of expression begins with a move on the list. -/
theorem evaluate {e : Expr} (hcontrol : s.control = .evaluate e k) :
    s.Moves table (s.evaluate table e k) := by
  have next : s.Pends k.duties k.values := .of_control hcontrol
  cases e with
  | literal span value => exact give next (.plain (by cases value <;> trivial))
  | var span x => exact read next span x
  | this span => exact read next span "this"
  | super span x => exact readSuper hcontrol
  | lambda f => exact .makes hcontrol
  | step span side op x =>
    exact stepVariable (by simp [State.binds, hcontrol]) next span side op
  | assign span x e => exact on (c := .evaluate e (.assign span x k)) next rfl
  | group span e => exact on (c := .evaluate e k) next rfl
  | unary span op e => exact on (c := .evaluate e (.unary span op k)) next rfl
  | binary span op left right => exact on (c := .evaluate left (.left span op right k)) next rfl
  | call span callee es => exact on (c := .evaluate callee (.callee span es k)) next rfl
  | property span e x => exact on (c := .evaluate e (.property span x k)) next rfl
  | setProperty span e x value =>
    exact on (c := .evaluate e (.target span x value k)) next rfl

/-- Whatever waits for a value goes on with a move on the list. -/
theorem accept {v : Value} (hcontrol : s.control = .value v k) :
    (s.accept table v k).Ensures (s.Moves table) := by
  have pending : s.Pends k.duties (v :: k.values) := .of_control hcontrol
  obtain ⟨hv, hvalues⟩ := List.forall_mem_cons.1 pending.values
  have next : s.Pends k.duties k.values := ⟨pending.duties, hvalues⟩
  clear pending
  cases k with
  | discard l => exact finish (l := l) next
  | print span l =>
    intro written
    cases written with
    | true => exact finish (l := l) next
    | false => exact fault ⟨rfl, rfl⟩ span
  | define x l =>
    exact bindName (l := l) (by simp [State.binds, hcontrol]) next hv
  | inherit span x methods l =>
    cases v with
    | cls above => exact .inherits hcontrol
    | _ => exact fault ⟨rfl, rfl⟩ span
  | choose yes no l =>
    simp only [State.accept]
    split
    · exact on (c := .execute yes l) next rfl
    · cases no with
      | none => exact finish (l := l) next
      | some no => exact on (c := .execute no l) next rfl
  | test loop l =>
    simp only [State.accept]
    split
    · exact on (c := .execute loop.body (.endRound loop l)) next rfl
    · exact finish (l := l) next
  | round loop l => exact round (l := l) next loop
  | returns l => exact finishWith (l := l) next hv
  | assign span x k =>
    exact write (k := k) (by simp [State.binds, hcontrol]) next span hv hv
  | unary span op k => exact giveOr (k := k) next span (v.fails_unary op) fun _ ↦ .of_unary
  | left span op e k =>
    simp only [State.accept]
    split
    · exact give (k := k) next hv
    · exact on (c := .evaluate e (.right span op v k))
        ⟨next.duties, List.forall_mem_cons.2 ⟨hv, hvalues⟩⟩ rfl
  | right span op w k =>
    exact giveOr (k := k) ⟨next.duties, (List.forall_mem_cons.1 hvalues).2⟩ span
      (w.fails_binary op v) fun _ ↦ .of_binary hv
  | callee span es k =>
    simp only [State.accept]
    cases hcallable : v.callable with
    | error cause => exact fault (v.fails_callable cause hcallable) span
    | ok _ =>
      cases es with
      | nil =>
        exact call (k := k) (by simp [calling?, hcontrol]) next
      | cons e es =>
        exact on (c := .evaluate e (.argument span v [] es k))
          ⟨next.duties, List.forall_mem_cons.2 ⟨hv, hvalues⟩⟩ rfl
  | argument span callee known rest k =>
    obtain ⟨hcallee, hothers⟩ := List.forall_mem_cons.1 hvalues
    obtain ⟨hknown, hvalues'⟩ := List.forall_mem_append.1 hothers
    cases rest with
    | nil =>
      exact call (k := k) (by simp [calling?, hcontrol]) ⟨next.duties, hvalues'⟩
    | cons e rest =>
      refine on (c := .evaluate e (.argument span callee (v :: known) rest k))
        ⟨next.duties, List.forall_mem_cons.2 ⟨hcallee, List.forall_mem_append.2 ⟨?_, hvalues'⟩⟩⟩ rfl
      exact List.forall_mem_cons.2 ⟨hv, hknown⟩
  | property span x k => exact readProperty hcontrol
  | target span x e k =>
    simp only [State.accept]
    cases v with
    | object id c => exact .checks hcontrol
    | _ => exact fault ⟨rfl, rfl⟩ span
  | field id x k => exact .assigns hcontrol
  | construct object k =>
    obtain ⟨hobject, hvalues⟩ := List.forall_mem_cons.1 hvalues
    exact give (k := k) ⟨next.duties, hvalues⟩ hobject

/-- Whatever waits for a statement goes on with a move on the list. -/
theorem resume {flow : Flow} (hcontrol : s.control = .ended flow l) :
    (s.resume flow l).Ensures (s.Moves table) := by
  have pending : s.Pends l.duties (flow.values ++ l.values) := .of_control hcontrol
  obtain ⟨hflow, hvalues⟩ := List.forall_mem_append.1 pending.values
  have next : s.Pends l.duties l.values := ⟨pending.duties, hvalues⟩
  clear pending
  cases l with
  | done =>
    cases flow with
    | normal => exact rfl
    | returned v => exact anomaly _
  | sequence rest l =>
    cases flow with
    | returned v => cases rest <;> exact finishWith (l := l) next (hflow v List.mem_cons_self)
    | normal =>
      cases rest with
      | nil => exact finish (l := l) next
      | cons stmt rest => exact on (c := .execute stmt (.sequence rest l)) next rfl
  | leave outer l =>
    exact .leaves (c := .ended flow l) next.duties.symm
      ⟨.inl rfl, List.forall_mem_append.2 ⟨hflow, hvalues⟩, nofun⟩
  | leaveCall outer closure k => exact leaveCall hcontrol
  | enterLoop loop l => exact round (l := l) next loop
  | endRound loop l =>
    cases flow with
    | returned v => exact finishWith (l := l) next (hflow v List.mem_cons_self)
    | normal =>
      simp only [State.resume]
      split
      · exact round (l := l) next loop
      · exact on (c := .evaluate _ (.round loop l)) next rfl

end Moves

/-- The step of a state that is not stuck is on the list, if there is one. -/
theorem step_moves {s : State} (hs : ¬ s.IsStuck) (table : Distances) :
    (s.step table).Ensures (s.Moves table) := by
  unfold step
  cases hcontrol : s.control with
  | execute stmt l => exact Moves.execute hcontrol
  | evaluate e k => exact Moves.evaluate hcontrol
  | value v k => exact Moves.accept hcontrol
  | ended flow l => exact Moves.resume hcontrol
  | stuck t => exact absurd ⟨t, hcontrol⟩ hs

/-- Every step is on the list. -/
theorem Steps.moves {s s' : State} {table : Distances} (hstep : s.Steps table s') :
    s.Moves table s' :=
  hstep.ensured (step_moves hstep.not_isStuck table)

end State

end LoxLang
