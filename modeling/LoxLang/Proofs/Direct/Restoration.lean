import LoxLang.Proofs.Direct

/-!
# Scope and depth are put back

However a statement, an expression or a call finishes, by its end, by a `return` or by a fault, the
scope and the depth of calls are what they were before it (`evaluate_restores`, `execute_restores`,
`invoke_restores`). This is so because every action is made of actions of which it is so, and only
two of them change the scope or the depth at all.
-/

namespace LoxLang.Direct

/-- However the action finishes, with a result or with a fault, the scope and the depth are what
they were. -/
def Action.Restores {α : Type} (p : Action α) : Prop :=
  ∀ σ result σ', p σ = .finished result σ' → σ'.scope = σ.scope ∧ σ'.depth = σ.depth

/-- What has finished after something was put back had finished before. -/
theorem Exit.finished_of_afterwards {α : Type} {x : Exit α} {f : Store → Store}
    {result : Except Fault α} {σ' : Store} (h : x.afterwards f = .finished result σ') :
    ∃ σ, x = .finished result σ ∧ f σ = σ' := by
  cases x with
  | finished result σ =>
    cases h
    exact ⟨σ, rfl, rfl⟩
  | broken a σ => cases h
  | unfinished => cases h

namespace Action.Restores

variable {α β : Type} {p : Action α} {f : α → Action β}

/-! ### Actions -/

theorem pure (a : α) : Restores (pure a : Action α) := by
  intro σ result σ' h
  cases h
  exact ⟨rfl, rfl⟩

/-- One action after the other restores what each of them does. -/
theorem bind (hp : p.Restores) (hf : ∀ a, (f a).Restores) : (p >>= f).Restores := by
  intro σ result σ' h
  change Action.bind p f σ = _ at h
  unfold Action.bind at h
  split at h
  · rename_i a σ₁ h₁
    obtain ⟨hscope, hdepth⟩ := hf a σ₁ result σ' h
    obtain ⟨hscope₁, hdepth₁⟩ := hp σ _ σ₁ h₁
    exact ⟨hscope.trans hscope₁, hdepth.trans hdepth₁⟩
  · rename_i fault σ₁ h₁
    cases h
    exact hp σ _ _ h₁
  · cases h
  · cases h

theorem fault (f : Fault) : Restores (fault f : Action α) := by
  intro σ result σ' h
  cases h
  exact ⟨rfl, rfl⟩

theorem anomaly (a : Anomaly) : Restores (anomaly a : Action α) := nofun

theorem unfinished : Restores (unfinished : Action α) := nofun

theorem orFault (span : Span) (r : Except Cause α) : (orFault span r).Restores := by
  cases r with
  | ok a => exact pure a
  | error cause => exact fault _

theorem orAnomaly (r : Except Anomaly α) : (orAnomaly r).Restores := by
  cases r with
  | ok a => exact pure a
  | error a => exact anomaly a

theorem observe (f : Store → α) : (observe f).Restores := by
  intro σ result σ' h
  cases h
  exact ⟨rfl, rfl⟩

/-- A change of the heap leaves the scope and the depth alone. -/
theorem change (f : Store → α × Heap) : (change f).Restores := by
  intro σ result σ' h
  cases h
  exact ⟨rfl, rfl⟩

/-- A request leaves the scope and the depth alone. -/
theorem ask (request : Request) : (ask request).Restores := by
  intro σ result σ' h
  cases h
  exact ⟨rfl, rfl⟩

/-- A scope that was entered is left again. -/
theorem within (hp : p.Restores) (scope : Chain) : (within scope p).Restores := by
  intro σ result σ' h
  obtain ⟨σ₁, h₁, rfl⟩ := Exit.finished_of_afterwards h
  obtain ⟨-, hdepth⟩ := hp _ _ _ h₁
  exact ⟨rfl, hdepth⟩

/-- A call that was counted is counted no more. -/
theorem deeper (hp : p.Restores) (span : Span) : (deeper span p).Restores := by
  intro σ result σ' h
  unfold Action.deeper at h
  split at h
  · cases h
    exact ⟨rfl, rfl⟩
  · obtain ⟨σ₁, h₁, rfl⟩ := Exit.finished_of_afterwards h
    obtain ⟨hscope, hdepth⟩ := hp _ _ _ h₁
    exact ⟨hscope, congrArg (· - 1) hdepth⟩

end Action.Restores

open LoxLang.Direct.Action (Restores)

/-! ### Variables and methods -/

theorem valueAt_restores (name : String) (depth : Nat) : (valueAt name depth).Restores :=
  .bind (.observe _) fun r ↦ .orAnomaly r

/-- To read a variable changes neither the scope nor the depth. -/
theorem lookup_restores (table : Distances) (span : Span) (name : String) :
    (lookup table span name).Restores := by
  unfold lookup
  split
  · refine .bind (valueAt_restores _ _) fun v ↦ ?_
    cases v with
    | none => exact .anomaly _
    | some v => exact .pure v
  · refine .bind (.observe _) fun v ↦ ?_
    cases v with
    | none => exact .fault _
    | some v => exact .pure v

/-- To assign a variable changes neither the scope nor the depth. -/
theorem assign_restores (table : Distances) (span : Span) (name : String) (v : Value) :
    (assign table span name v).Restores := by
  unfold assign
  split
  · exact .bind (.observe _) fun r ↦ .bind (.orAnomaly r) fun heap ↦ .change _
  · refine .bind (.observe _) fun heap ↦ ?_
    cases heap with
    | none => exact .fault _
    | some heap => exact .change _

theorem stepVariable_restores (table : Distances) (span : Span) (side : Side) (op : StepOp)
    (name : String) : (stepVariable table span side op name).Restores :=
  .bind (lookup_restores table span name) fun _ ↦ .bind (.orFault _ _) fun new ↦
    .bind (assign_restores table span name new) fun _ ↦ .pure _

theorem newMethod_restores (method : Closure) (this : Value) :
    (newMethod method this).Restores :=
  .bind (.change _) fun _ ↦ .change _

theorem superMethod_restores (table : Distances) (span : Span) (name : String) :
    (superMethod table span name).Restores := by
  unfold superMethod
  split
  · exact .anomaly _
  · refine .bind (valueAt_restores _ _) fun above ↦ ?_
    split
    · split
      · exact .anomaly _
      · refine .bind (valueAt_restores _ _) fun this ↦ ?_
        split
        · split
          · exact .fault _
          · exact newMethod_restores _ _
        · exact .anomaly _
    · exact .anomaly _

theorem property_restores (span : Span) (name : String) (v : Value) :
    (property span name v).Restores := by
  refine .bind (.orFault _ _) fun (id, c) ↦ .bind (.observe _) fun r ↦ ?_
  refine .bind (.orFault _ r) fun found ↦ ?_
  cases found with
  | field v => exact .pure v
  | method closure => exact newMethod_restores _ _

/-! ### Parts -/

section Parts

variable {eval : Expr → Action Value} {exec : Stmt → Action Flow}

/-- Statements one after another restore the scope and the depth if each of them does. -/
theorem all_restores (hexec : ∀ stmt, (exec stmt).Restores) (stmts : List Stmt) :
    (all exec stmts).Restores := by
  induction stmts with
  | nil => exact .pure _
  | cons stmt rest ih =>
    refine .bind (hexec stmt) fun flow ↦ ?_
    cases flow with
    | normal => exact ih
    | returned v => exact .pure _

/-- Arguments one after another restore the scope and the depth if each of them does. -/
theorem each_restores (heval : ∀ e, (eval e).Restores) (es : List Expr) :
    (each eval es).Restores := by
  induction es with
  | nil => exact .pure _
  | cons e rest ih => exact .bind (heval e) fun v ↦ .bind ih fun vs ↦ .pure _

/-- A call of a function restores the scope and the depth, since its body is left in the end. -/
theorem callFunction_restores (hexec : ∀ stmt, (exec stmt).Restores) (span : Span)
    (closure : Closure) (arguments : List Value) :
    (callFunction exec span closure arguments).Restores := by
  have hbody (inner : Chain) :
      (Action.within inner (all exec closure.function.body)).Restores :=
    .within (all_restores hexec _) inner
  refine .bind (.deeper (.bind (.change _) hbody) span) fun flow ↦ ?_
  split
  · refine .bind (.observe _) fun this ↦ ?_
    split
    · exact .pure _
    · exact .anomaly _
  · split <;> exact .pure _

/-- A call of a class restores the scope and the depth, whether it has an initializer or not. -/
theorem construct_restores (hexec : ∀ stmt, (exec stmt).Restores) (span : Span) (c : Class)
    (arguments : List Value) : (construct exec span c arguments).Restores := by
  refine .bind (.change _) fun object ↦ ?_
  split
  · exact .pure _
  · exact .bind (.change _) fun bound ↦
      .bind (callFunction_restores hexec span bound arguments) fun _ ↦ .pure _

/-- A call restores the scope and the depth if the statements of its body do. -/
theorem invoke_restores_of (hexec : ∀ stmt, (exec stmt).Restores) (span : Span) (callee : Value)
    (arguments : List Value) : (invoke exec span callee arguments).Restores := by
  refine .bind (.orFault _ _) fun _ ↦ ?_
  split
  · exact .bind (.ask _) fun _ ↦ .pure _
  · refine .bind (.ask _) fun line ↦ ?_
    split
    · exact .pure _
    · exact .pure _
    · exact .fault _
  · exact callFunction_restores hexec _ _ _
  · exact construct_restores hexec _ _ _
  · exact .fault _

/-- The evaluation of a superclass restores the scope and the depth. -/
theorem superclass_restores (heval : ∀ e, (eval e).Restores) (parent : Option Name) :
    (superclass eval parent).Restores := by
  cases parent with
  | none => exact .pure _
  | some parent =>
    refine .bind (heval _) fun v ↦ ?_
    split
    · exact .pure _
    · exact .fault _

theorem start_restores (hexec : ∀ stmt, (exec stmt).Restores) (init : Option Stmt) :
    (start exec init).Restores := by
  cases init with
  | none => exact .pure _
  | some init => exact .bind (hexec init) fun _ ↦ .pure _

theorem holds_restores (heval : ∀ e, (eval e).Restores) (condition : Option Expr) :
    (holds eval condition).Restores := by
  cases condition with
  | none => exact .pure _
  | some condition => exact .bind (heval condition) fun v ↦ .pure _

theorem advance_restores (heval : ∀ e, (eval e).Restores) (step : Option Expr) :
    (advance eval step).Restores := by
  cases step with
  | none => exact .pure _
  | some step => exact .bind (heval step) fun v ↦ .pure _

/-- The rounds of a loop restore the scope and the depth if each part of the loop does. -/
theorem rounds_restores (heval : ∀ e, (eval e).Restores) (hexec : ∀ stmt, (exec stmt).Restores)
    (loop : Loop) (n : Nat) : (rounds eval exec loop n).Restores := by
  induction n with
  | zero => exact .unfinished
  | succ n ih =>
    refine .bind (holds_restores heval _) fun goesOn ↦ ?_
    split
    · refine .bind (hexec _) fun flow ↦ ?_
      cases flow with
      | normal => exact .bind (advance_restores heval _) fun _ ↦ ih
      | returned v => exact .pure _
    · exact .pure _

end Parts

/-! ### Statements and expressions -/

section Recursion

variable {table : Distances} {n : Nat}

/-- An expression restores the scope and the depth if everything one level further down does. -/
theorem evaluate_succ_restores (heval : ∀ e, (evaluate table n e).Restores)
    (hexec : ∀ stmt, (execute table n stmt).Restores) (e : Expr) :
    (evaluate table (n + 1) e).Restores := by
  unfold evaluate
  cases e with
  | literal _ value => exact .pure _
  | var span name => exact lookup_restores table span name
  | assign span name value =>
    exact .bind (heval value) fun v ↦ .bind (assign_restores table span name v) fun _ ↦ .pure v
  | step span side op name => exact stepVariable_restores table span side op name
  | group _ inner => exact heval inner
  | unary span op operand => exact .bind (heval operand) fun v ↦ .orFault _ _
  | binary span op left right =>
    refine .bind (heval left) fun v ↦ ?_
    split
    · exact .pure v
    · exact .bind (heval right) fun w ↦ .orFault _ _
  | call span callee arguments =>
    exact .bind (heval callee) fun v ↦ .bind (.orFault _ _) fun _ ↦
      .bind (each_restores heval arguments) fun vs ↦ invoke_restores_of hexec span v vs
  | property span object name =>
    exact .bind (heval object) fun v ↦ property_restores span name v
  | setProperty span object name value =>
    exact .bind (heval object) fun v ↦ .bind (.orFault _ _) fun (id, _) ↦
      .bind (heval value) fun w ↦ .change _
  | this span => exact lookup_restores table span "this"
  | super span name => exact superMethod_restores table span name
  | lambda function => exact .change _

/-- A statement restores the scope and the depth if everything one level further down does. -/
theorem execute_succ_restores (heval : ∀ e, (evaluate table n e).Restores)
    (hexec : ∀ stmt, (execute table n stmt).Restores) (stmt : Stmt) :
    (execute table (n + 1) stmt).Restores := by
  unfold execute
  cases stmt with
  | expression _ value => exact .bind (heval value) fun _ ↦ .pure _
  | print span value =>
    refine .bind (heval value) fun v ↦ .bind (.ask _) fun written ↦ ?_
    cases written with
    | true => exact .pure _
    | false => exact .fault _
  | varDecl _ name value =>
    cases value with
    | none => exact .bind (.change _) fun _ ↦ .pure _
    | some value => exact .bind (heval value) fun v ↦ .bind (.change _) fun _ ↦ .pure _
  | funDecl function => exact .bind (.change _) fun v ↦ .bind (.change _) fun _ ↦ .pure _
  | classDecl _ name parent methods =>
    exact .bind (.change _) fun _ ↦ .bind (superclass_restores heval parent) fun above ↦
      .bind (.change _) fun c ↦ .bind (.change _) fun _ ↦ .pure _
  | block _ body => exact .bind (.change _) fun inner ↦ .within (all_restores hexec body) inner
  | conditional _ condition yes no =>
    refine .bind (heval condition) fun v ↦ ?_
    split
    · exact hexec yes
    · cases no with
      | none => exact .pure _
      | some no => exact hexec no
  | whileLoop _ condition body =>
    exact rounds_restores heval hexec ⟨some condition, none, body⟩ n
  | forLoop _ init condition step body =>
    exact .bind (.change _) fun inner ↦
      .within (.bind (start_restores hexec init) fun _ ↦ rounds_restores heval hexec _ n) inner
  | returns _ value =>
    cases value with
    | none => exact .pure _
    | some value => exact .bind (heval value) fun v ↦ .pure _

end Recursion

/-- However deep the recursion may go, expressions and statements restore the scope and the
depth. -/
theorem restores (table : Distances) (n : Nat) :
    (∀ e, (evaluate table n e).Restores) ∧ ∀ stmt, (execute table n stmt).Restores := by
  induction n with
  | zero =>
    constructor
    · intro e
      unfold evaluate
      exact .unfinished
    · intro stmt
      unfold execute
      exact .unfinished
  | succ n ih =>
    obtain ⟨heval, hexec⟩ := ih
    exact ⟨evaluate_succ_restores heval hexec, execute_succ_restores heval hexec⟩

/-- However an expression finishes, the scope and the depth are what they were. -/
theorem evaluate_restores (table : Distances) (n : Nat) (e : Expr) :
    (evaluate table n e).Restores := (restores table n).1 e

/-- However a statement finishes, the scope and the depth are what they were. -/
theorem execute_restores (table : Distances) (n : Nat) (stmt : Stmt) :
    (execute table n stmt).Restores := (restores table n).2 stmt

/-- However a call finishes, the scope and the depth are what they were. -/
theorem invoke_restores (table : Distances) (n : Nat) (span : Span) (callee : Value)
    (arguments : List Value) : (invoke (execute table n) span callee arguments).Restores :=
  invoke_restores_of (execute_restores table n) span callee arguments

/-- However a program finishes, the scope and the depth are what they were. -/
theorem program_restores (table : Distances) (n : Nat) (p : Program) :
    (program table n p).Restores := by
  refine .bind (all_restores (execute_restores table n) p) fun flow ↦ ?_
  cases flow with
  | normal => exact .pure _
  | returned v => exact .anomaly _

end LoxLang.Direct
