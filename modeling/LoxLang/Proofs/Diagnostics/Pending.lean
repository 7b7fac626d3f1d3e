import LoxLang.Proofs.Held
import LoxLang.Proofs.Nodes
import LoxLang.World

/-!
# Places that a running program charges

A running program charges a fault to the place of a node that it evaluates, or of one whose parts it
has evaluated. Whatever it executes is code of a program that was accepted: of the present one, or
of an earlier one whose functions are in the heap. So what holds of the places of all nodes of these
programs holds of all places in pending work (`State.Written.step`), and of the place of the fault
that stops a program (`State.Written.run`).
-/

namespace LoxLang

/-! ### Code -/

namespace Node

/-- The nodes, and those inside them at any depth, are written at places with the property. -/
def Written (P : Span → Prop) (ns : List Node) : Prop := ∀ n ∈ ns.flatMap nodes, P n.span

variable {P Q : Span → Prop} {n : Node} {ns ms : List Node}

/-- Nodes are written where they should be if those of both parts are. -/
theorem written_append : Written P (ns ++ ms) ↔ Written P ns ∧ Written P ms := by
  unfold Written
  rw [List.flatMap_append, List.forall_mem_append]

theorem written_cons : Written P (n :: ns) ↔ Written P [n] ∧ Written P ns := by
  rw [← List.singleton_append, written_append]

namespace Written

theorem mono (h : Written P ns) (hPQ : ∀ s, P s → Q s) : Written Q ns :=
  fun n hn ↦ hPQ _ (h n hn)

theorem of_mem (h : Written P ns) (hn : n ∈ ns) : Written P [n] := by
  intro m hm
  rw [List.flatMap_singleton] at hm
  exact h m (List.mem_flatMap.2 ⟨n, hn, hm⟩)

/-- A node is written where its span says. -/
theorem span (h : Written P [n]) : P n.span := by
  refine h n ?_
  rw [List.flatMap_singleton]
  exact n.mem_nodes_self

/-- The children of a node are written where it is. -/
theorem inside (h : Written P [n]) : Written P n.children := by
  intro m hm
  refine h m ?_
  rw [List.flatMap_singleton, nodes_eq]
  exact List.mem_cons_of_mem _ hm

end Written

end Node

open Node (Written written_append written_cons)

/-- The nodes of a loop. -/
def Loop.nodes (loop : Loop) : List Node :=
  loop.condition.toList.map .expr ++ loop.step.toList.map .expr ++ [.stmt loop.body]

/-- Functions and methods are written at places with the property. -/
def Demands.written (P : Span → Prop) : Demands where
  function c := Written P (Node.ofFunction c.function)
  method _ c := Written P (Node.ofFunction c.function)
  object _ _ := True

/-- What is written in one text is written in any larger one. -/
theorem Demands.written_le {P Q : Span → Prop} (hPQ : ∀ s, P s → Q s) :
    (written P).Le (written Q) where
  function h := h.mono hPQ
  method h := h.mono hPQ
  object := id

/-! ### Pending work -/

section Work

variable (P : Span → Prop)

mutual

/-- Pending work charges places with the property, and its code is written at such places. -/
def AfterValue.Written : AfterValue → Prop
  | .discard next | .define _ next | .returns next => next.Written
  | .print span next => P span ∧ next.Written
  | .inherit span _ methods next =>
    P span ∧ Node.Written P (methods.map .method) ∧ next.Written
  | .choose yes no next =>
    Node.Written P [.stmt yes] ∧ Node.Written P (no.toList.map .stmt) ∧ next.Written
  | .test loop next | .round loop next => Node.Written P loop.nodes ∧ next.Written
  | .assign span _ next | .unary span _ next | .right span _ _ next | .property span _ next =>
    P span ∧ next.Written
  | .left span _ e next | .target span _ e next =>
    P span ∧ Node.Written P [.expr e] ∧ next.Written
  | .callee span es next | .argument span _ _ es next =>
    P span ∧ Node.Written P (es.map .expr) ∧ next.Written
  | .field _ _ next | .construct _ next => next.Written

@[inherit_doc AfterValue.Written]
def AfterStmt.Written : AfterStmt → Prop
  | .done => True
  | .sequence stmts next => Node.Written P (stmts.map .stmt) ∧ next.Written
  | .leave _ next => next.Written
  | .leaveCall _ _ next => next.Written
  | .enterLoop loop next | .endRound loop next => Node.Written P loop.nodes ∧ next.Written

end

/-- A fault is charged to a place with the property. -/
def Trouble.Written : Trouble → Prop
  | .fault f => P f.span
  | .anomaly _ => True

/-- What is done next is written at places with the property, and so is pending work. -/
def Control.Written : Control → Prop
  | .execute stmt next => Node.Written P [.stmt stmt] ∧ next.Written P
  | .evaluate e next => Node.Written P [.expr e] ∧ next.Written P
  | .value _ next => next.Written P
  | .ended _ next => next.Written P
  | .stuck t => t.Written P

@[inherit_doc Control.Written]
abbrev State.Written (s : State) : Prop := s.control.Written P

end Work

/-! ### Steps -/

namespace State

variable {P : Span → Prop} {s s' : State} {table : Distances} {k : AfterValue} {l : AfterStmt}
  {span : Span}

/-- The parts of a loop are evaluated or executed where it is written. -/
theorem Written.round {loop : Loop} (hloop : Node.Written P loop.nodes) (next : l.Written P) :
    (s.round loop l).Written P := by
  obtain ⟨condition, step, body⟩ := loop
  obtain ⟨hclauses, hbody⟩ := written_append.1 hloop
  cases condition with
  | none => exact ⟨hbody, hloop, next⟩
  | some e => exact ⟨(written_append.1 hclauses).1, hloop, next⟩

/-! #### How an expression ends -/

/-- Wherever an expression ends, what is pending is written still. -/
theorem Written.of_answers {names : List String} (hspan : P span) (next : k.Written P)
    (h : s.Answers table span names k s') : s'.Written P := by
  cases h with
  | gives | writes | binds => exact next
  | faults => exact hspan
  | breaks => exact trivial

/-- The body of a function is written somewhere, and so is what waits for it. -/
theorem Written.of_called {callee : Value} {vs : List Value} (hspan : P span) (next : k.Written P)
    (hcallee : callee.Satisfies (.written P)) (h : s.Called span callee vs k s') :
    s'.Written P := by
  cases h with
  | gives | constructs => exact next
  | unreadable | refused | tooDeep => exact hspan
  | enters _ hbody =>
    cases hbody with
    | function => exact ⟨(written_append.1 hcallee).2, next⟩
    | initializer hi =>
      exact ⟨(written_append.1 (hcallee.method? (D := .written P) hi)).2, next⟩

/-- The next argument is evaluated, or the call is made, where both are written. -/
theorem Written.nextArgument {es : List Expr} (h : (AfterValue.callee span es k).Written P)
    {v : Value} (hv : v.Satisfies (.written P)) (known : List Value) :
    (s.nextArgument span v known es k).Ensures (State.Written P) := by
  obtain ⟨hspan, hes, next⟩ := h
  cases es with
  | nil => exact (s.call_called span v known.reverse k).imp fun _ ↦ .of_called hspan next hv
  | cons e es =>
    obtain ⟨he, hes⟩ := written_cons.1 hes
    exact ⟨he, hspan, hes, next⟩

/-- What waits for the value of a call is written. -/
theorem Written.leaveCall (next : k.Written P) (scope : Chain) (c : Closure) (flow : Flow) :
    (s.leaveCall scope c flow k).Written P := by
  unfold State.leaveCall
  dsimp only
  repeat' split
  all_goals first | exact next | exact trivial

/-! #### Statements and expressions -/

/-- A statement begins with a step to something that is written. -/
theorem Written.execute {stmt : Stmt} (h : (Control.execute stmt l).Written P) :
    (s.execute stmt l).Written P := by
  obtain ⟨hstmt, next⟩ := h
  have hspan := hstmt.span
  have inside := hstmt.inside
  cases stmt with
  | expression span e => exact ⟨inside, next⟩
  | print span e => exact ⟨inside, hspan, next⟩
  | varDecl span x value =>
    cases value with
    | none => exact next
    | some e => exact ⟨inside, next⟩
  | funDecl f => exact next
  | classDecl span x parent methods =>
    cases parent with
    | none => exact next
    | some parent =>
      obtain ⟨hparent, hmethods⟩ := written_cons.1 inside
      exact ⟨hparent, hparent.span, hmethods, next⟩
  | block span body => exact ⟨inside, next⟩
  | conditional span condition yes no =>
    obtain ⟨hcondition, hbranches⟩ := written_cons.1 inside
    exact ⟨hcondition, (written_cons.1 hbranches).1, (written_cons.1 hbranches).2, next⟩
  | whileLoop span condition body =>
    have hloop : Node.Written P (Loop.nodes ⟨some condition, none, body⟩) := inside
    exact .round hloop next
  | forLoop span init condition step body =>
    cases init with
    | none =>
      have hloop : Node.Written P (Loop.nodes ⟨condition, step, body⟩) := inside
      exact .round (s := s.enterScope) (l := .leave s.scope l) hloop next
    | some init => exact ⟨(written_cons.1 inside).1, (written_cons.1 inside).2, next⟩
  | returns span value =>
    cases value with
    | none => exact next
    | some e => exact ⟨inside, next⟩

/-- An expression begins with a step to something that is written. -/
theorem Written.evaluate {e : Expr} (h : (Control.evaluate e k).Written P) :
    (s.evaluate table e k).Written P := by
  obtain ⟨he, next⟩ := h
  have hspan := he.span
  have inside := he.inside
  cases e with
  | literal | lambda => exact next
  | var span x => exact .of_answers hspan next (.read x)
  | this span => exact .of_answers hspan next (.read "this")
  | step span side op x => exact .of_answers hspan next (.stepVariable side op x)
  | super span x => exact .of_answers hspan next (.readSuper x)
  | group span e => exact ⟨inside, next⟩
  | assign span x e => exact ⟨inside, hspan, next⟩
  | unary span op e => exact ⟨inside, hspan, next⟩
  | property span e x => exact ⟨inside, hspan, next⟩
  | binary span op left right =>
    exact ⟨(written_cons.1 inside).1, hspan, (written_cons.1 inside).2, next⟩
  | call span callee es =>
    exact ⟨(written_cons.1 inside).1, hspan, (written_cons.1 inside).2, next⟩
  | setProperty span object x value =>
    exact ⟨(written_cons.1 inside).1, hspan, (written_cons.1 inside).2, next⟩

/-! #### Pending work goes on -/

/-- What waits for a value goes on with something that is written. -/
theorem Written.accept (next : k.Written P) {v : Value} (hv : v.Satisfies (.written P))
    (hk : ∀ w ∈ k.values, w.Satisfies (.written P)) :
    (s.accept table v k).Ensures (State.Written P) := by
  cases k with
  | discard | define | returns | field | construct => exact next
  | print span l =>
    intro written
    cases written with
    | true => exact next.2
    | false => exact next.1
  | inherit span x methods l =>
    cases v with
    | cls above => exact next.2.2
    | _ => exact next.1
  | choose yes no l =>
    obtain ⟨hyes, hno, next⟩ := next
    simp only [State.accept]
    split
    · exact ⟨hyes, next⟩
    · cases no with
      | none => exact next
      | some no => exact ⟨hno, next⟩
  | test loop l =>
    obtain ⟨hloop, next⟩ := next
    simp only [State.accept]
    split
    · exact ⟨(written_append.1 hloop).2, hloop, next⟩
    · exact next
  | round loop l => exact Written.round next.1 next.2
  | assign span x k => exact Written.of_answers next.1 next.2 (.write x v v)
  | unary span op k => exact Written.of_answers next.1 next.2 (.giveOr table _)
  | left span op e k =>
    obtain ⟨hspan, he, next⟩ := next
    simp only [State.accept]
    split
    · exact next
    · exact ⟨he, hspan, next⟩
  | right span op w k => exact Written.of_answers next.1 next.2 (.giveOr table _)
  | callee span es k =>
    simp only [State.accept]
    split
    · exact next.1
    · exact Written.nextArgument next hv []
  | argument span callee known es k =>
    exact Written.nextArgument next (hk callee List.mem_cons_self) _
  | property span x k => exact Written.of_answers next.1 next.2 (.readProperty table x v)
  | target span x e k =>
    simp only [State.accept]
    split
    · exact next.1
    · exact next.2

/-- What waits for a statement goes on with something that is written. -/
theorem Written.resume (next : l.Written P) (flow : Flow) :
    (s.resume flow l).Ensures (State.Written P) := by
  cases l with
  | done =>
    cases flow with
    | normal => exact rfl
    | returned v => exact trivial
  | sequence stmts l =>
    obtain ⟨hstmts, next⟩ := next
    cases stmts with
    | nil => cases flow <;> exact next
    | cons stmt stmts =>
      cases flow with
      | normal => exact ⟨(written_cons.1 hstmts).1, (written_cons.1 hstmts).2, next⟩
      | returned v => exact next
  | leave scope l => exact next
  | leaveCall scope c k => exact Written.leaveCall next scope c flow
  | enterLoop loop l => exact Written.round next.1 next.2
  | endRound loop l =>
    obtain ⟨condition, step, body⟩ := loop
    obtain ⟨hloop, next⟩ := next
    cases flow with
    | returned v => exact next
    | normal =>
      cases step with
      | none => exact Written.round hloop next
      | some e => exact ⟨(written_append.1 (written_append.1 hloop).1).2, hloop, next⟩

/-- The functions that a step makes are code of the program. -/
theorem Written.supplies (h : s.Written P) : s.Supplies (.written P) table := by
  unfold State.Written at h
  refine ⟨fun {f} hmakes ↦ ?_, fun _ hm ↦ hm, fun {f scope} hf _ ↦ ?_, fun _ _ ↦ trivial⟩
  · rcases hmakes with ⟨k, hcontrol⟩ | ⟨l, hcontrol⟩ <;> rw [hcontrol] at h <;> exact h.1.inside
  · unfold State.declaredMethods at hf
    split at hf
    · rename_i hcontrol
      rw [hcontrol] at h
      exact (h.1.inside.of_mem (n := .method f) (List.mem_map_of_mem hf)).inside
    · rename_i hcontrol
      rw [hcontrol] at h
      exact (h.2.1.of_mem (n := .method f) (List.mem_map_of_mem hf)).inside
    · cases hf

/-- A step goes on with code that is written at places with the property, or charges such a
place. -/
theorem Written.step (h : s.Written P) (hs : s.Satisfies (.written P))
    (hstep : s.Steps table s') : s'.Written P := by
  refine hstep.ensured ?_
  have hstuck := hstep.not_isStuck
  have hcontrol := hs.control
  unfold State.step
  unfold State.Written at h
  unfold State.IsStuck at hstuck
  generalize s.control = c at h hcontrol hstuck
  cases c with
  | execute stmt l => exact Written.execute h
  | evaluate e k => exact Written.evaluate h
  | value v k =>
    obtain ⟨hv, hk⟩ := List.forall_mem_cons.1 hcontrol
    exact Written.accept h hv hk
  | ended flow l => exact Written.resume h flow
  | stuck t => exact absurd ⟨t, rfl⟩ hstuck

/-! ### Runs -/

/-- A run leaves functions in the heap that are written at places with the property, and a fault
that stops it is charged to such a place. -/
theorem Written.run (h : s.Written P) (hs : s.Satisfies (.written P)) (fuel : Nat) (w : World) :
    (s.run table fuel w).2.1.Satisfies (.written P) ∧
      ∀ f, (s.run table fuel w).2.2 = some (.stuck (.fault f)) → P f.span := by
  induction fuel generalizing s w with
  | zero => exact ⟨hs.heap, nofun⟩
  | succ fuel ih =>
    have hstep {s' : State} (hsteps : s.Steps table s') (w : World) :=
      ih (h.step hs hsteps) (hs.step h.supplies hsteps) w
    unfold State.run
    split
    · rename_i s' hs'
      exact hstep (.moved hs') w
    · rename_i request resume hwaiting
      exact hstep (.replied hwaiting rfl) _
    · rename_i ending heap hstopped
      obtain ⟨rfl, hstuck⟩ := of_step_eq_stopped hstopped
      refine ⟨hs.heap, fun f hf ↦ ?_⟩
      have hcontrol := hstuck _ (Option.some.inj hf)
      unfold State.Written at h
      rw [hcontrol] at h
      exact h

end State

end LoxLang
