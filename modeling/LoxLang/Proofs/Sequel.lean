import LoxLang.Machine

/-!
# Programs with a sequel

A program that is followed by more statements takes the same steps as without them, up to its end
(`State.step_withSequel`). The pending work of the longer program is that of the shorter one with
the sequel at its end (`State.withSequel`). No step looks so far ahead, except the last ones of the
shorter program: where it ends, the longer one stands still and goes on with the sequel.
-/

namespace LoxLang

variable {q : Program}

/-! ### Pending work -/

mutual

/-- The same pending work with `q` to be executed at its end. -/
def AfterValue.withSequel (q : Program) : AfterValue → AfterValue
  | .discard next => .discard (next.withSequel q)
  | .print span next => .print span (next.withSequel q)
  | .define x next => .define x (next.withSequel q)
  | .inherit span x methods next => .inherit span x methods (next.withSequel q)
  | .choose yes no next => .choose yes no (next.withSequel q)
  | .test loop next => .test loop (next.withSequel q)
  | .round loop next => .round loop (next.withSequel q)
  | .returns next => .returns (next.withSequel q)
  | .assign span x next => .assign span x (next.withSequel q)
  | .unary span op next => .unary span op (next.withSequel q)
  | .left span op e next => .left span op e (next.withSequel q)
  | .right span op v next => .right span op v (next.withSequel q)
  | .callee span es next => .callee span es (next.withSequel q)
  | .argument span v vs es next => .argument span v vs es (next.withSequel q)
  | .property span x next => .property span x (next.withSequel q)
  | .target span x e next => .target span x e (next.withSequel q)
  | .field i x next => .field i x (next.withSequel q)
  | .construct v next => .construct v (next.withSequel q)

/-- The statements of the program and those of the sequel become one sequence. -/
def AfterStmt.withSequel (q : Program) : AfterStmt → AfterStmt
  | .done => .sequence q .done
  | .sequence rest .done => .sequence (rest ++ q) .done
  | .sequence rest next => .sequence rest (next.withSequel q)
  | .leave scope next => .leave scope (next.withSequel q)
  | .leaveCall scope c next => .leaveCall scope c (next.withSequel q)
  | .enterLoop loop next => .enterLoop loop (next.withSequel q)
  | .endRound loop next => .endRound loop (next.withSequel q)

end

/-- A sequence that is not the last work comes before the sequel. -/
theorem AfterStmt.withSequel_sequence (rest : List Stmt) {next : AfterStmt} (h : next ≠ .done) :
    (AfterStmt.sequence rest next).withSequel q = .sequence rest (next.withSequel q) := by
  cases next with
  | done => exact absurd rfl h
  | _ => rfl

/-- The same, with `q` to be executed at the end. -/
def Control.withSequel (q : Program) : Control → Control
  | .execute stmt next => .execute stmt (next.withSequel q)
  | .evaluate e next => .evaluate e (next.withSequel q)
  | .value v next => .value v (next.withSequel q)
  | .ended flow next => .ended flow (next.withSequel q)
  | .stuck t => .stuck t

/-- The same state, with `q` to be executed at the end. -/
def State.withSequel (q : Program) (s : State) : State :=
  { s with control := s.control.withSequel q }

/-- What one step leads to, with `q` to be executed at the end. -/
def Progress.withSequel (q : Program) : Progress → Progress
  | .moved s => .moved (s.withSequel q)
  | .waiting request resume => .waiting request fun reply ↦ (resume reply).withSequel q
  | .stopped ending heap => .stopped ending heap

namespace State

@[simp] theorem scope_withSequel (s : State) : (s.withSequel q).scope = s.scope := rfl

@[simp] theorem depth_withSequel (s : State) : (s.withSequel q).depth = s.depth := rfl

@[simp] theorem heap_withSequel (s : State) : (s.withSequel q).heap = s.heap := rfl

/-- The program is over, or all that is left of it are statements that a `return` skips. -/
def AtEnd (s : State) : Prop :=
  (∃ flow, s.control = .ended flow .done) ∨
    ∃ flow rest, s.control = .ended flow (.sequence rest .done) ∧ (flow = .normal → rest = [])

/-! ### Steps -/

variable (s : State) (table : Distances) (span : Span) (x : String)

/-- A loop begins its next round alike, whatever comes at the end. -/
theorem round_withSequel (loop : Loop) (next : AfterStmt) :
    (s.withSequel q).round loop (next.withSequel q) = (s.round loop next).withSequel q := by
  obtain ⟨condition, step, body⟩ := loop
  cases condition <;> rfl

/-- A statement begins alike, whatever comes at the end. -/
theorem execute_withSequel (stmt : Stmt) (next : AfterStmt) :
    (s.withSequel q).execute stmt (next.withSequel q) = (s.execute stmt next).withSequel q := by
  cases stmt with
  | varDecl _ _ value => cases value <;> rfl
  | classDecl _ _ parent _ => cases parent <;> rfl
  | whileLoop _ condition body => exact round_withSequel s ⟨some condition, none, body⟩ next
  | forLoop _ init condition step body =>
    cases init with
    | none => exact round_withSequel s.enterScope ⟨condition, step, body⟩ (.leave s.scope next)
    | some init => rfl
  | returns _ value => cases value <;> rfl
  | _ => rfl

theorem frameOf_withSequel : (s.withSequel q).frameOf table span x = s.frameOf table span x := rfl

theorem lookup_withSequel : (s.withSequel q).lookup table span x = s.lookup table span x := rfl

theorem read_withSequel (next : AfterValue) :
    (s.withSequel q).read table span x (next.withSequel q) =
      (s.read table span x next).withSequel q := by
  unfold read
  rw [lookup_withSequel]
  split <;> rfl

theorem write_withSequel (v result : Value) (next : AfterValue) :
    (s.withSequel q).write table span x v result (next.withSequel q) =
      (s.write table span x v result next).withSequel q := by
  unfold write
  rw [frameOf_withSequel]
  split <;> rfl

theorem stepVariable_withSequel (side : Side) (op : StepOp) (next : AfterValue) :
    (s.withSequel q).stepVariable table span side op x (next.withSequel q) =
      (s.stepVariable table span side op x next).withSequel q := by
  unfold stepVariable
  rw [lookup_withSequel]
  split
  · rfl
  · split
    · rfl
    · exact write_withSequel ..

theorem readSuper_withSequel (next : AfterValue) :
    (s.withSequel q).readSuper table span x (next.withSequel q) =
      (s.readSuper table span x next).withSequel q := by
  unfold readSuper
  cases table.lookup span with
  | none => rfl
  | some depth =>
    simp only [heap_withSequel, scope_withSequel]
    rcases s.heap.getAt s.scope "super" depth with a | (- | above)
    · rfl
    · rfl
    cases above with
    | cls above =>
      cases depth with
      | zero => rfl
      | succ inner =>
        dsimp only
        rcases s.heap.getAt s.scope "this" inner with a | (- | this)
        · rfl
        · rfl
        cases this with
        | object id c =>
          dsimp only
          cases above.method? x <;> rfl
        | _ => rfl
    | _ => rfl

theorem readProperty_withSequel (v : Value) (next : AfterValue) :
    (s.withSequel q).readProperty span x v (next.withSequel q) =
      (s.readProperty span x v next).withSequel q := by
  unfold readProperty
  rcases v.asObject x with cause | ⟨id, c⟩
  · rfl
  · simp only [heap_withSequel]
    rcases s.heap.property id c x with cause | (v | closure) <;> rfl

/-- An expression begins alike, whatever comes at the end. -/
theorem evaluate_withSequel (e : Expr) (next : AfterValue) :
    (s.withSequel q).evaluate table e (next.withSequel q) =
      (s.evaluate table e next).withSequel q := by
  cases e with
  | var => exact read_withSequel ..
  | this => exact read_withSequel ..
  | step => exact stepVariable_withSequel ..
  | super => exact readSuper_withSequel ..
  | _ => rfl

/-! ### Calls -/

/-- A body is entered alike, whatever comes at the end. -/
theorem enter_withSequel (c : Closure) (vs : List Value) (next : AfterValue) :
    (s.withSequel q).enter span c vs (next.withSequel q) =
      (s.enter span c vs next).withSequel q := by
  unfold enter
  rw [depth_withSequel]
  by_cases hdepth : callLimit ≤ s.depth
  · rw [if_pos hdepth, if_pos hdepth]
    rfl
  · rw [if_neg hdepth, if_neg hdepth]
    rfl

theorem construct_withSequel (c : Class) (vs : List Value) (next : AfterValue) :
    (s.withSequel q).construct span c vs (next.withSequel q) =
      (s.construct span c vs next).withSequel q := by
  unfold construct
  cases c.initializer? with
  | none => rfl
  | some initializer =>
    let bound := (s.heap.newObject c).2.bindMethod initializer (s.heap.newObject c).1
    exact enter_withSequel { s with heap := bound.2 } span bound.1 vs
      (.construct (s.heap.newObject c).1 next)

/-- A value is called alike, whatever comes at the end. -/
theorem call_withSequel (v : Value) (vs : List Value) (next : AfterValue) :
    (s.withSequel q).call span v vs (next.withSequel q) =
      (s.call span v vs next).withSequel q := by
  unfold call
  cases v.accepts vs.length with
  | error cause => rfl
  | ok _ =>
    cases v with
    | function id c => exact congrArg Progress.moved (enter_withSequel ..)
    | cls c => exact congrArg Progress.moved (construct_withSequel ..)
    | native n =>
      cases n with
      | clock => rfl
      | input =>
        refine congrArg (Progress.waiting .readLine) (funext fun reply ↦ ?_)
        cases reply <;> rfl
    | _ => rfl

theorem nextArgument_withSequel (v : Value) (vs : List Value) (es : List Expr)
    (next : AfterValue) :
    (s.withSequel q).nextArgument span v vs es (next.withSequel q) =
      (s.nextArgument span v vs es next).withSequel q := by
  cases es with
  | nil => exact call_withSequel ..
  | cons e es => rfl

/-- A call is left alike, whatever comes at the end. -/
theorem leaveCall_withSequel (scope : Chain) (c : Closure) (flow : Flow) (next : AfterValue) :
    (s.withSequel q).leaveCall scope c flow (next.withSequel q) =
      (s.leaveCall scope c flow next).withSequel q := by
  unfold leaveCall
  simp only [heap_withSequel]
  split
  · rcases s.heap.getAt c.scope "this" 0 with a | (- | this) <;> rfl
  · cases flow <;> rfl

/-! ### Pending work goes on -/

/-- What waits for a value goes on alike, whatever comes at the end. -/
theorem accept_withSequel (v : Value) (next : AfterValue) :
    (s.withSequel q).accept table v (next.withSequel q) =
      (s.accept table v next).withSequel q := by
  cases next with
  | print span next =>
    refine congrArg (Progress.waiting _) (funext fun written ↦ ?_)
    cases written <;> rfl
  | inherit => cases v <;> rfl
  | choose yes no next =>
    simp only [AfterValue.withSequel, accept]
    split
    · rfl
    · cases no <;> rfl
  | test loop next =>
    simp only [AfterValue.withSequel, accept]
    split <;> rfl
  | round loop next => exact congrArg Progress.moved (round_withSequel s loop next)
  | assign => exact congrArg Progress.moved (write_withSequel ..)
  | unary span op next =>
    simp only [AfterValue.withSequel, accept]
    cases v.unary op <;> rfl
  | left span op e next =>
    simp only [AfterValue.withSequel, accept]
    split <;> rfl
  | right span op left next =>
    simp only [AfterValue.withSequel, accept]
    cases left.binary op v <;> rfl
  | callee span es next =>
    simp only [AfterValue.withSequel, accept]
    cases v.callable with
    | error cause => rfl
    | ok _ => exact nextArgument_withSequel ..
  | argument => exact nextArgument_withSequel ..
  | property => exact congrArg Progress.moved (readProperty_withSequel ..)
  | target span x e next =>
    simp only [AfterValue.withSequel, accept]
    rcases v.asObject x with cause | ⟨id, c⟩ <;> rfl
  | _ => rfl

/-- What waits for a statement goes on alike, unless it is the end. -/
theorem resume_withSequel {flow : Flow} {next : AfterStmt} (hs : s.control = .ended flow next)
    (h : ¬ s.AtEnd) :
    (s.withSequel q).resume flow (next.withSequel q) = (s.resume flow next).withSequel q := by
  cases next with
  | done => exact absurd (.inl ⟨flow, hs⟩) h
  | sequence rest next =>
    by_cases hnext : next = .done
    · subst hnext
      cases flow with
      | returned v => exact absurd (.inr ⟨_, rest, hs, nofun⟩) h
      | normal =>
        cases rest with
        | nil => exact absurd (.inr ⟨_, [], hs, fun _ ↦ rfl⟩) h
        | cons stmt rest => rfl
    · -- these statements are not the last of the program, so the sequel stands further down
      rw [AfterStmt.withSequel_sequence _ hnext]
      cases rest with
      | nil => cases flow <;> rfl
      | cons stmt rest =>
        cases flow with
        | normal =>
          simp only [resume, Progress.withSequel, withSequel, Control.withSequel,
            AfterStmt.withSequel_sequence _ hnext]
        | returned v => rfl
  | leave => rfl
  | leaveCall => exact congrArg Progress.moved (leaveCall_withSequel ..)
  | enterLoop loop next => exact congrArg Progress.moved (round_withSequel s loop next)
  | endRound loop next =>
    obtain ⟨condition, step, body⟩ := loop
    cases flow with
    | returned v => rfl
    | normal =>
      cases step with
      | none => exact congrArg Progress.moved (round_withSequel s _ next)
      | some step => rfl

/-- A step of the longer program is that of the shorter one, unless that one ends. -/
theorem step_withSequel (h : ¬ s.AtEnd) :
    (s.withSequel q).step table = (s.step table).withSequel q := by
  unfold step
  rw [show (s.withSequel q).control = s.control.withSequel q from rfl]
  cases hs : s.control with
  | execute stmt next => exact congrArg Progress.moved (execute_withSequel ..)
  | evaluate e next => exact congrArg Progress.moved (evaluate_withSequel ..)
  | value v next => exact accept_withSequel ..
  | ended flow next => exact resume_withSequel s hs h
  | stuck t => rfl

end State

end LoxLang
