import LoxLang.Proofs.Alike.Values

/-!
# States of alike programs

When two states are at corresponding points of the runs of alike programs (`StateAlike`). They stand
in joint environments, have alike memories, and do alike things next and afterwards.

Where a `for` loop is written out the second program has more to do: it enters and leaves the block
around the body, and it passes the ends of lists of statements that the first program does not have.
All of that is silent. So after each step of the first program the second one makes a step and then
a few more that change nothing (`Catches`), until the two are at corresponding points again.
-/

namespace LoxLang

namespace Lexical

open Pairing (Refers)

/-! ### Joint environments after statements -/

namespace Joint

/-- After a declaration, for which this cell was made if it is local. -/
def declare (x x' : String) (cell : Nat) (J : Joint) : Joint :=
  if J.isLocal then J.bind x x' cell else J

/-- After two statements that stand for each other. -/
def after (cell : Nat) (s s' : Stmt) (J : Joint) : Joint :=
  match s.declares, s'.declares with
  | some x, some x' => J.declare x x' cell
  | _, _ => J

/-- A joint declaration pairs the two names. -/
theorem pairing_declare (x x' : String) (cell : Nat) (J : Joint) :
    (J.declare x x' cell).pairing = J.pairing.declare x x' := by
  obtain ⟨names, isLocal⟩ := J
  cases isLocal <;> rfl

/-- After two statements the names that they declare are paired. -/
theorem pairing_after (cell : Nat) (s s' : Stmt) (J : Joint) :
    (J.after cell s s').pairing = J.pairing.after s s' := by
  unfold after Pairing.after
  cases s.declares with
  | none => rfl
  | some x =>
    cases s'.declares with
    | none => rfl
    | some x' => exact J.pairing_declare x x' cell

theorem after_eq_self {s : Stmt} (hs : s.declares = none) (cell : Nat) (s' : Stmt) (J : Joint) :
    J.after cell s s' = J := by
  unfold after
  rw [hs]

/-- A local scope stays one. -/
theorem isLocal_after {J : Joint} (h : J.isLocal = true) (cell : Nat) (s s' : Stmt) :
    (J.after cell s s').isLocal = true := by
  unfold after
  split
  · unfold declare
    rw [if_pos h]
    rfl
  · exact h

/-- A local scope is an inner one already. -/
theorem inner_eq_self {J : Joint} (h : J.isLocal = true) : J.inner = J := by
  obtain ⟨names, isLocal⟩ := J
  obtain rfl : isLocal = true := h
  rfl

end Joint

/-! ### Pending work -/

section Work

variable (ω : Leeway)

/-- The statements end alike. The mark tells whether they may be left by a `return`. -/
inductive FlowAlike : Bool → Flow → Flow → Prop
  | normal {r : Bool} : FlowAlike r .normal .normal
  | returned {v v' : Value} (hv : ValueAlike ω v v') : FlowAlike true (.returned v) (.returned v')

/-- The parts of the loops are alike. -/
structure LoopAlike (Γ : Pairing) (loop loop' : Loop) : Prop where
  condition : Expr.Alike? ω Γ loop.condition loop'.condition
  step : Expr.Alike? ω Γ loop.step loop'.step
  body : Stmt.Alike ω Γ loop.body loop'.body
  declares : loop.body.declares = none

/-- The `while` loop in what the loop is written out as. -/
def written (places : LoopSpans) (loop : Loop) : Loop :=
  ⟨some (places.test loop.condition), none, places.round loop.step loop.body⟩

/-- What is pending when the body of a loop that is written out has ended. -/
def afterBody (places : LoopSpans) (loop : Loop) (env : Env) (next : AfterStmt) : AfterStmt :=
  .leave env (.endRound (written places loop) (.sequence [] next))

mutual

/-- What is pending in these environments is alike. -/
inductive AfterValueAlike : Joint → AfterValue → AfterValue → Prop
  | discard {r J k k'} (next : AfterStmtAlike r J k k') :
      AfterValueAlike J (.discard k) (.discard k')
  | print {r J span k k'} (next : AfterStmtAlike r J k k') :
      AfterValueAlike J (.print span k) (.print span k')
  | define {r J x x' k k'} (hx : Paired J.pairing.names x x') (next : AfterStmtAlike r J k k') :
      AfterValueAlike J (.define x k) (.define x' k')
  | inherit {r J span x fs fs' k k'} (hx : Paired J.pairing.names x x)
      (hfs : FunDecl.AllAlike ω (J.pairing.bind "super" "super") fs fs')
      (next : AfterStmtAlike r J k k') :
      AfterValueAlike J (.inherit span x fs k) (.inherit span x fs' k')
  | choose {J yes yes' no no' k k'} (hyes : Stmt.Alike ω J.pairing yes yes')
      (hno : Stmt.Alike? ω J.pairing no no') (declares : yes.declares = none)
      (declares' : no.bind Stmt.declares = none) (next : AfterStmtAlike true J k k') :
      AfterValueAlike J (.choose yes no k) (.choose yes' no' k')
  | test {J loop loop' k k'} (hloop : LoopAlike ω J.pairing loop loop')
      (next : AfterStmtAlike true J k k') : AfterValueAlike J (.test loop k) (.test loop' k')
  | round {J loop loop' k k'} (hloop : LoopAlike ω J.pairing loop loop')
      (next : AfterStmtAlike true J k k') : AfterValueAlike J (.round loop k) (.round loop' k')
  /-- The loop is written out, and so the end of a list is pending, too. -/
  | writtenTest {J loop loop' k k'} (places : LoopSpans) (loops : ω.loops)
      (isLocal : J.isLocal = true) (hloop : LoopAlike ω J.pairing loop loop')
      (next : AfterStmtAlike true J k k') :
      AfterValueAlike J (.test loop k) (.test (written places loop') (.sequence [] k'))
  /-- The step of a loop that is written out is the last statement of a block. -/
  | writtenRound {J loop loop' k k'} (places : LoopSpans) (loops : ω.loops)
      (isLocal : J.isLocal = true) (hloop : LoopAlike ω J.pairing loop loop')
      (next : AfterStmtAlike true J k k') :
      AfterValueAlike J (.round loop k)
        (.discard (.sequence [] (afterBody places loop' J.right k')))
  | returns {J k k'} (next : AfterStmtAlike true J k k') :
      AfterValueAlike J (.returns k) (.returns k')
  | assign {J span x x' k k'} (hx : Refers ω J.pairing x x') (next : AfterValueAlike J k k') :
      AfterValueAlike J (.assign span x k) (.assign span x' k')
  | unary {J span op k k'} (next : AfterValueAlike J k k') :
      AfterValueAlike J (.unary span op k) (.unary span op k')
  | left {J span op e e' k k'} (he : Expr.Alike ω J.pairing e e')
      (next : AfterValueAlike J k k') :
      AfterValueAlike J (.left span op e k) (.left span op e' k')
  | right {J span op v v' k k'} (hv : ValueAlike ω v v') (next : AfterValueAlike J k k') :
      AfterValueAlike J (.right span op v k) (.right span op v' k')
  | callee {J span es es' k k'} (hes : Expr.AllAlike ω J.pairing es es')
      (next : AfterValueAlike J k k') :
      AfterValueAlike J (.callee span es k) (.callee span es' k')
  | argument {J span v v' vs vs' es es' k k'} (hv : ValueAlike ω v v')
      (hvs : List.Forall₂ (ValueAlike ω) vs vs') (hes : Expr.AllAlike ω J.pairing es es')
      (next : AfterValueAlike J k k') :
      AfterValueAlike J (.argument span v vs es k) (.argument span v' vs' es' k')
  | property {J span x k k'} (next : AfterValueAlike J k k') :
      AfterValueAlike J (.property span x k) (.property span x k')
  | target {J span x e e' k k'} (he : Expr.Alike ω J.pairing e e')
      (next : AfterValueAlike J k k') :
      AfterValueAlike J (.target span x e k) (.target span x e' k')
  | field {J i x k k'} (next : AfterValueAlike J k k') :
      AfterValueAlike J (.field i x k) (.field i x k')
  | construct {J v v' k k'} (hv : ValueAlike ω v v') (next : AfterValueAlike J k k') :
      AfterValueAlike J (.construct v k) (.construct v' k')

/-- What is pending after a statement is alike. The mark tells whether the statement may be left by
a `return`; the first clause of a loop may not. -/
inductive AfterStmtAlike : Bool → Joint → AfterStmt → AfterStmt → Prop
  | done {r J} : AfterStmtAlike r J .done .done
  /-- A `return` skips the rest, so what comes after it may come in any environments. -/
  | sequence {r J rest rest' k k'} (hrest : Stmt.AllAlike ω J.pairing rest rest')
      (next : ∀ J', AfterStmtAlike true J' k k') :
      AfterStmtAlike r J (.sequence rest k) (.sequence rest' k')
  | leave {r J J₀ k k'} (next : AfterStmtAlike true J₀ k k') :
      AfterStmtAlike r J (.leave J₀.left k) (.leave J₀.right k')
  | leaveCall {r J J₀ c c' k k'} (hc : FunctionAlike ω c c') (next : AfterValueAlike J₀ k k') :
      AfterStmtAlike r J (.leaveCall J₀.left c k) (.leaveCall J₀.right c' k')
  | enterLoop {r J loop loop' k k'} (hloop : LoopAlike ω J.pairing loop loop')
      (next : AfterStmtAlike true J k k') :
      AfterStmtAlike r J (.enterLoop loop k) (.enterLoop loop' k')
  | endRound {r J loop loop' k k'} (hloop : LoopAlike ω J.pairing loop loop')
      (next : AfterStmtAlike true J k k') :
      AfterStmtAlike r J (.endRound loop k) (.endRound loop' k')
  /-- A loop that is written out comes after its first clause in a block. -/
  | writtenEnter {J loop loop' k k'} (places : LoopSpans) (loops : ω.loops)
      (isLocal : J.isLocal = true) (hloop : LoopAlike ω J.pairing loop loop')
      (next : AfterStmtAlike true J k k') :
      AfterStmtAlike false J (.enterLoop loop k)
        (.sequence [.whileLoop places.loop (places.test loop'.condition)
          (places.round loop'.step loop'.body)] k')
  /-- The body of a loop that is written out comes before its step in a block. -/
  | writtenEnd {r J loop loop' k k'} (places : LoopSpans) (loops : ω.loops)
      (isLocal : J.isLocal = true) (hloop : LoopAlike ω J.pairing loop loop')
      (next : AfterStmtAlike true J k k') :
      AfterStmtAlike r J (.endRound loop k)
        (.sequence (places.steps loop'.step) (afterBody places loop' J.right k'))

end

/-! ### States -/

/-- The reasons to stop are the same, except that a variable without a value has the name that it
has in each program. -/
inductive TroubleAlike : Trouble → Trouble → Prop
  | refl (t : Trouble) : TroubleAlike t t
  | missingLocal {x x' : String} (h : ω.name x x') :
      TroubleAlike (.anomaly (.missingLocal x)) (.anomaly (.missingLocal x'))

/-- What is done next in these environments is alike. -/
inductive ControlAlike (J : Joint) : Control → Control → Prop
  | execute {r s s' k k'} (hs : Stmt.Alike ω J.pairing s s')
      (hr : r = false → s.isClause = true) (next : ∀ c, AfterStmtAlike ω r (J.after c s s') k k') :
      ControlAlike J (.execute s k) (.execute s' k')
  | evaluate {e e' k k'} (he : Expr.Alike ω J.pairing e e') (next : AfterValueAlike ω J k k') :
      ControlAlike J (.evaluate e k) (.evaluate e' k')
  | value {v v' k k'} (hv : ValueAlike ω v v') (next : AfterValueAlike ω J k k') :
      ControlAlike J (.value v k) (.value v' k')
  | ended {r flow flow' k k'} (hflow : FlowAlike ω r flow flow')
      (next : AfterStmtAlike ω r J k k') : ControlAlike J (.ended flow k) (.ended flow' k')
  | stuck {t t'} (ht : TroubleAlike ω t t') : ControlAlike J (.stuck t) (.stuck t')

/-- The states are at corresponding points of the runs of alike programs. -/
inductive StateAlike : State → State → Prop
  | mk {J : Joint} {c c' : Control} {depth : Nat} {m m' : Memory} (memory : MemoryAlike ω m m')
      (control : ControlAlike ω J c c') :
      StateAlike ⟨c, J.left, depth, m⟩ ⟨c', J.right, depth, m'⟩

/-- The second state comes to a point that corresponds to the first state, if it is not there
already, and does nothing on its way. -/
inductive Catches (s : State) : State → Prop
  | now {s' : State} (h : StateAlike ω s s') : Catches s s'
  | later {s' s'' : State} (loops : ω.loops) (hstep : s'.step = .moved s'')
      (h : Catches s s'') : Catches s s'

/-- The programs end alike. -/
inductive EndingAlike : Ending → Ending → Prop
  | done : EndingAlike .done .done
  | stuck {t t' : Trouble} (ht : TroubleAlike ω t t') : EndingAlike (.stuck t) (.stuck t')

/-- The two do the same. -/
inductive StepAlike : Progress → Progress → Prop
  | moved {s s' : State} (h : Catches ω s s') : StepAlike (.moved s) (.moved s')
  | waiting {request : Request} {resume resume' : request.Reply → State}
      (h : ∀ reply, StateAlike ω (resume reply) (resume' reply)) :
      StepAlike (.waiting request resume) (.waiting request resume')
  | stopped {e e' : Ending} {m m' : Memory} (h : EndingAlike ω e e') :
      StepAlike (.stopped e m) (.stopped e' m')

end Work

end Lexical

end LoxLang
