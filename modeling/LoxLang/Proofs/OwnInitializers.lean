import LoxLang.Program.Equality
import LoxLang.Proofs.Composition
import LoxLang.Proofs.Held
import LoxLang.Proofs.Sites.Reads

/-!
# Initializers that read their own variables

What the walk over a program says of initializers holds when the program runs. Whatever code there
is, pending or in functions, is sober, except for the statements of the program itself; and of these
an initializer reads its own variable only if the variable is bound by then
(`State.Careful.step`). So while the value of a variable is computed, a plain reference to that
variable is evaluated only in the global scope, and there it finds a value.
-/

namespace LoxLang

/-! ### Pending work -/

/-- The variable that gets the value of the whole expression, and what is done after it. -/
def AfterValue.target? : AfterValue → Option (String × AfterStmt)
  | .define x next => some (x, next)
  | .assign _ _ k | .unary _ _ k | .left _ _ _ k | .right _ _ _ k | .callee _ _ k
  | .argument _ _ _ _ k | .property _ _ k | .target _ _ _ k | .field _ _ k
  | .construct _ k => k.target?
  | .discard _ | .print _ _ | .inherit _ _ _ _ | .choose _ _ _ | .test _ _ | .round _ _
  | .returns _ => none

/-- Nothing is pending. -/
def AfterStmt.isDone : AfterStmt → Bool
  | .done => true
  | _ => false

/-- The statements of the program itself are pending, and nothing else. -/
def AfterStmt.isTop : AfterStmt → Bool
  | .sequence _ next => next.isDone
  | _ => false

/-- All code of the function is sober. -/
def FunDecl.Sober (f : FunDecl) : Prop := ∀ n ∈ Node.ofFunction f, n.Sober

/-- The statement is sober, and it may be a branch or the body of a loop. -/
structure Stmt.Branch (s : Stmt) : Prop where
  sober : (Node.stmt s).Sober
  declares : s.declares = none

/-- All code of the loop is sober. -/
structure Loop.Sober (loop : Loop) : Prop where
  condition : ∀ e ∈ loop.condition, (Node.expr e).Sober
  step : ∀ e ∈ loop.step, (Node.expr e).Sober
  body : loop.body.Branch

/-- A plain reference to the variable may be evaluated: the variable does not get the value of the
expression, or it is a global one with `B`. -/
def AfterValue.Permits (B : String → Prop) (k : AfterValue) (x : String) : Prop :=
  ∀ l, k.target? = some (x, l) → l.isTop = true ∧ B x

section Work

variable (B : String → Prop) (before rest : List Stmt)

/-- The statements that are pending are sober; or they are those of the program itself, and what the
statements before them declare has `B` unless it is the name `new`. -/
def Awaits (new : Option String) (scope : Chain) (stmts : List Stmt) : Bool → Prop
  | true =>
    stmts = rest ∧ scope = Heap.globals ∧
      ∀ x ∈ Node.declared (before.map .stmt), B x ∨ new = some x
  | false => ∀ s ∈ stmts, (Node.stmt s).Sober

mutual

/-- All code that is pending is sober, except for the statements of the program itself. -/
def AfterValue.Careful (scope : Chain) : AfterValue → Prop
  | .define x next => next.Careful (some x) scope
  | .inherit _ x methods next => (∀ f ∈ methods, f.Sober) ∧ next.Careful (some x) scope
  | .choose yes no next => yes.Branch ∧ (∀ s ∈ no, s.Branch) ∧ next.Careful none scope
  | .test loop next | .round loop next => loop.Sober ∧ next.Careful none scope
  | .discard next | .print _ next | .returns next => next.Careful none scope
  | .assign _ _ k | .unary _ _ k | .right _ _ _ k | .property _ _ k | .field _ _ k
  | .construct _ k => k.Careful scope
  | .left _ _ e k | .target _ _ e k =>
    ((Node.expr e).Sober ∧ ∀ r ∈ e.reads, k.Permits B r.text) ∧ k.Careful scope
  | .callee _ es k | .argument _ _ _ es k =>
    ((∀ e ∈ es, (Node.expr e).Sober) ∧ ∀ r ∈ Expr.allReads es, k.Permits B r.text) ∧
      k.Careful scope

@[inherit_doc AfterValue.Careful]
def AfterStmt.Careful (new : Option String) (scope : Chain) : AfterStmt → Prop
  | .done => True
  | .sequence stmts next =>
    Awaits B before rest new scope stmts next.isDone ∧ next.Careful none scope
  | .leave outer next => next.Careful none outer
  | .leaveCall outer _ k => k.Careful outer
  | .enterLoop loop next | .endRound loop next => loop.Sober ∧ next.Careful none scope

end

/-- All code that is executed next or is pending is sober, except for the statements of the program
itself. Of these, one that declares a name is the last that was begun. -/
def Control.Careful (scope : Chain) : Control → Prop
  | .execute stmt next =>
    (stmt.Vetted (fun x ↦ next.isTop = true ∧ B x) ∧
      (stmt.declares.isSome → next.isTop = true → before.getLast? = some stmt)) ∧
      next.Careful B before rest stmt.declares scope
  | .evaluate e k =>
    ((Node.expr e).Sober ∧ ∀ r ∈ e.reads, k.Permits B r.text) ∧ k.Careful B before rest scope
  | .value _ k => k.Careful B before rest scope
  | .ended _ next => next.Careful B before rest none scope
  | .stuck _ => True

@[inherit_doc Control.Careful]
abbrev State.Careful (s : State) : Prop := s.control.Careful B before rest s.scope

/-- What a step leads to: the code is careful as it was, or a global variable got a value, or the
next statement of the program was begun. -/
inductive State.Proceeds (s : State) : Prop
  | same (h : s.Careful B before rest)
  | bound (x : String) (hx : ((s.heap.frame 0).get? x).isSome)
      (h : s.Careful (fun y ↦ B y ∨ y = x) before rest)
  | began (stmt : Stmt) (others : List Stmt) (hrest : rest = stmt :: others)
      (hcontrol : s.control = .execute stmt (.sequence others .done))
      (h : s.Careful B (before ++ [stmt]) others)

end Work

variable {B : String → Prop} {before rest : List Stmt}

/-- The variable of an initializer is global just if the program itself declares it. -/
theorem AfterValue.Careful.of_target? {k : AfterValue} {scope : Chain}
    (h : k.Careful B before rest scope) {x : String} {l : AfterStmt}
    (hk : k.target? = some (x, l)) : l.Careful B before rest (some x) scope :=
  match k, h, hk with
  | .define .., h, hk => by
    obtain ⟨rfl, rfl⟩ := Prod.mk.inj (Option.some.inj hk)
    exact h
  | .assign _ _ k, h, hk | .unary _ _ k, h, hk | .right _ _ _ k, h, hk | .property _ _ k, h, hk
  | .field _ _ k, h, hk | .construct _ k, h, hk =>
    AfterValue.Careful.of_target? (k := k) h hk
  | .left .., h, hk | .target .., h, hk | .callee .., h, hk | .argument .., h, hk =>
    h.2.of_target? hk

/-- Pending statements of the program itself go on in the global scope. -/
theorem AfterStmt.Careful.scope_eq {l : AfterStmt} {new : Option String} {scope : Chain}
    (h : l.Careful B before rest new scope) (hl : l.isTop = true) : scope = Heap.globals := by
  cases l with
  | sequence stmts next =>
    have hawaits := h.1
    rw [show next.isDone = true from hl] at hawaits
    exact hawaits.2.1
  | _ => cases hl

theorem FunDecl.Sober.of_node {n : Node} (h : n.Sober) {f : FunDecl}
    (hf : n.children = Node.ofFunction f) : f.Sober :=
  fun _ hc ↦ h.child (hf ▸ hc)

/-- The statements of a sober function are sober. -/
theorem FunDecl.Sober.body {f : FunDecl} (h : f.Sober) : ∀ s ∈ f.body, (Node.stmt s).Sober :=
  fun _ hs ↦ h _ (List.mem_append_right _ (List.mem_map_of_mem hs))

/-- What a class is made of is sober: functions that are values, and the methods of classes. -/
def Demands.sober : Demands where
  function c := c.function.Sober
  method _ c := c.function.Sober
  object _ _ := True

/-! ### Steps -/

namespace State

section Careful

variable {s : State} {table : Distances} {k : AfterValue} {l : AfterStmt}

/-- A name is bound, and what is pending goes on. If that is the program itself, then the name is a
global one. -/
theorem Proceeds.declared {x : String} (next : l.Careful B before rest (some x) s.scope) {h : Heap}
    (hx : s.scope = Heap.globals → ((h.frame 0).get? x).isSome) :
    Proceeds B before rest ⟨.ended .normal l, s.scope, s.depth, h⟩ := by
  cases l with
  | sequence stmts l =>
    obtain ⟨hawaits, next⟩ := next
    cases l with
    | done =>
      obtain ⟨hrest, hscope, hnames⟩ := hawaits
      refine .bound x (hx hscope) ⟨⟨hrest, hscope, fun y hy ↦ .inl ?_⟩, trivial⟩
      rcases hnames y hy with hB | hxy
      · exact .inl hB
      · exact .inr (Option.some.inj hxy).symm
    | _ => exact .same ⟨hawaits, next⟩
  | _ => exact .same next

/-- A sober loop begins its next round with care. -/
theorem Careful.round {loop : Loop} (hloop : loop.Sober)
    (next : l.Careful B before rest none s.scope) : (s.round loop l).Careful B before rest := by
  obtain ⟨condition, step, body⟩ := loop
  cases condition with
  | none =>
    have hdeclares : body.declares = none := hloop.body.declares
    refine ⟨⟨hloop.body.sober.vetted _, fun hsome ↦ ?_⟩, hloop, next⟩
    rw [hdeclares] at hsome
    cases hsome
  | some condition => exact ⟨⟨hloop.condition _ rfl, fun _ _ _ h ↦ by cases h⟩, hloop, next⟩

/-- A statement that is sober and declares nothing is executed. -/
theorem Careful.branch {stmt : Stmt} (h : stmt.Branch)
    (next : l.Careful B before rest none s.scope) :
    State.Careful B before rest { s with control := .execute stmt l } := by
  refine ⟨⟨h.sober.vetted _, fun hsome ↦ ?_⟩, ?_⟩
  · rw [h.declares] at hsome
    cases hsome
  · rw [h.declares]
    exact next

/-! #### Statements -/

/-- What is bound in the innermost frame is bound globally, if that is the global frame. -/
theorem isSome_define {h : Heap} (hsize : 0 < h.frames.size) {scope : Chain}
    (hscope : scope = Heap.globals) (x : String) (v : Value) :
    (((h.define scope x v).frame 0).get? x).isSome := by
  subst hscope
  show (((h.setIn 0 x v).frame 0).get? x).isSome
  rw [Heap.frame_setIn_self hsize, Table.get?_set_self]
  rfl

/-- The name that is awaited is bound, and the program goes on with care. -/
theorem Proceeds.bindName (hsize : 0 < s.heap.frames.size) {x : String}
    (next : l.Careful B before rest (some x) s.scope) (v : Value) :
    (s.bindName x v l).Proceeds B before rest :=
  .declared (h := s.heap.define s.scope x v) next fun hscope ↦ isSome_define hsize hscope x v

/-- The class that is awaited is bound, and the program goes on with care. -/
theorem Proceeds.declareClass (hsize : 0 < s.heap.frames.size) {x : String}
    (next : l.Careful B before rest (some x) s.scope) (above : Option Class)
    (methods : List FunDecl) : (s.declareClass x above methods l).Proceeds B before rest := by
  have hsize' : 0 < (s.heap.newClass s.scope x above methods).2.frames.size := by
    cases above with
    | none => exact hsize
    | some c =>
      show 0 < (s.heap.frames.push _).size
      rw [Array.size_push]
      exact Nat.succ_pos _
  exact .declared (h := (s.heap.newClass s.scope x above methods).2.define s.scope x
    (s.heap.newClass s.scope x above methods).1) next fun hscope ↦ isSome_define hsize' hscope x _

/-- A statement begins with a step that proceeds. -/
theorem Proceeds.execute (hsize : 0 < s.heap.frames.size) {stmt : Stmt}
    (h : (Control.execute stmt l).Careful B before rest s.scope) :
    (s.execute stmt l).Proceeds B before rest := by
  obtain ⟨⟨⟨hproper, hinside, hown⟩, -⟩, next⟩ := h
  cases stmt with
  | expression _ value | print _ value =>
    exact .same ⟨⟨hinside _ List.mem_cons_self, fun _ _ _ h ↦ by cases h⟩, next⟩
  | varDecl span x value =>
    cases value with
    | none => exact .bindName hsize next .nil
    | some value =>
      refine .same ⟨⟨hinside _ List.mem_cons_self, fun r hr l' hl' ↦ ?_⟩, next⟩
      obtain ⟨hx, rfl⟩ := Prod.mk.inj (Option.some.inj hl')
      obtain ⟨htop, hB⟩ := hown span x value rfl r hr hx.symm
      exact ⟨htop, hx ▸ hB⟩
  | funDecl f =>
    exact .declared (h := (s.heap.newFunction ⟨f, s.scope, false⟩).2.define s.scope f.name
      (s.heap.newFunction ⟨f, s.scope, false⟩).1) next fun hscope ↦
        isSome_define (h := (s.heap.newFunction ⟨f, s.scope, false⟩).2) hsize hscope f.name _
  | classDecl span x parent methods =>
    have hsize' : 0 < (s.bindName x .nil l).heap.frames.size := by
      show 0 < (Array.modify _ _ _).size
      rw [Array.size_modify]
      exact hsize
    cases parent with
    | none => exact .declareClass (s := s.bindName x .nil l) hsize' next none methods
    | some parent =>
      have hmethods : ∀ f ∈ methods, f.Sober := fun f hf ↦
        .of_node (hinside (.method f) (List.mem_append_right _ (List.mem_map_of_mem hf))) rfl
      exact .same ⟨⟨hinside _ List.mem_cons_self, fun _ _ _ h ↦ by cases h⟩, hmethods, next⟩
  | block span body =>
    exact .same ⟨fun s hs ↦ hinside _ (List.mem_map_of_mem hs), next⟩
  | conditional span condition yes no =>
    obtain ⟨-, ⟨-, hyes⟩, -, hno⟩ := hproper
    refine .same ⟨⟨hinside _ List.mem_cons_self, fun _ _ _ h ↦ by cases h⟩,
      ⟨hinside _ (List.mem_cons_of_mem _ List.mem_cons_self), hyes⟩, fun s hs ↦ ?_, next⟩
    obtain rfl := hs
    exact ⟨hinside _ (List.mem_cons_of_mem _ (List.mem_cons_of_mem _ List.mem_cons_self)), hno⟩
  | whileLoop span condition body =>
    obtain ⟨-, -, hbody⟩ := hproper
    have hloop : Loop.Sober ⟨some condition, none, body⟩ := by
      refine ⟨fun e he ↦ ?_, fun e he ↦ (by cases he),
        hinside _ (List.mem_cons_of_mem _ List.mem_cons_self), hbody⟩
      obtain rfl := Option.some.inj he
      exact hinside _ List.mem_cons_self
    exact .same (Careful.round hloop next)
  | forLoop span init condition step body =>
    obtain ⟨-, -, -, -, hbody⟩ := hproper
    have hloop : Loop.Sober ⟨condition, step, body⟩ := by
      refine ⟨fun e he ↦ hinside _ ?_, fun e he ↦ hinside _ ?_, hinside _ ?_, hbody⟩ <;>
        simp_all [Node.children]
    cases init with
    | none => exact .same (Careful.round (s := s.enterScope) (l := .leave s.scope l) hloop next)
    | some init =>
      have hinit : (Node.stmt init).Sober := hinside _ (by simp [Node.children])
      exact .same ⟨⟨hinit.vetted _, fun _ h ↦ by cases h⟩, hloop, next⟩
  | returns span value =>
    cases value with
    | none => exact .same next
    | some value => exact .same ⟨⟨hinside _ List.mem_cons_self, fun _ _ _ h ↦ by cases h⟩, next⟩

/-! #### Expressions -/

/-- Wherever an expression ends, care is taken still. -/
theorem Careful.of_answers {span : Span} {names : List String} {s' : State}
    (next : k.Careful B before rest s.scope) (h : s.Answers table span names k s') :
    s'.Careful B before rest := by
  cases h with
  | gives | writes | binds => exact next
  | faults | breaks => exact trivial

/-- An expression begins with a step that takes care. -/
theorem Careful.evaluate {e : Expr} (h : (Control.evaluate e k).Careful B before rest s.scope) :
    (s.evaluate table e k).Careful B before rest := by
  obtain ⟨⟨hsober, hreads⟩, next⟩ := h
  cases e with
  | literal | lambda => exact next
  | var span x => exact .of_answers next (.read x)
  | this span => exact .of_answers next (.read "this")
  | step span side op x => exact .of_answers next (.stepVariable side op x)
  | super span x => exact .of_answers next (.readSuper x)
  | assign | group | unary | property =>
    exact ⟨⟨hsober.child List.mem_cons_self, hreads⟩, next⟩
  | binary span op left right =>
    exact ⟨⟨hsober.child List.mem_cons_self, fun r hr ↦ hreads r (List.mem_append_left _ hr)⟩,
      ⟨hsober.child (List.mem_cons_of_mem _ List.mem_cons_self),
        fun r hr ↦ hreads r (List.mem_append_right _ hr)⟩, next⟩
  | call span callee arguments =>
    exact ⟨⟨hsober.child List.mem_cons_self, fun r hr ↦ hreads r (List.mem_append_left _ hr)⟩,
      ⟨fun e he ↦ hsober.child (List.mem_cons_of_mem _ (List.mem_map_of_mem he)),
        fun r hr ↦ hreads r (List.mem_append_right _ hr)⟩, next⟩
  | setProperty span object x value =>
    exact ⟨⟨hsober.child List.mem_cons_self, fun r hr ↦ hreads r (List.mem_append_left _ hr)⟩,
      ⟨hsober.child (List.mem_cons_of_mem _ List.mem_cons_self),
        fun r hr ↦ hreads r (List.mem_append_right _ hr)⟩, next⟩

/-! #### Calls -/

/-- The body of a sober function is entered with care. -/
theorem Careful.of_called {span : Span} {callee : Value} {vs : List Value} {s' : State}
    (next : k.Careful B before rest s.scope) (hcallee : callee.Satisfies .sober)
    (h : s.Called span callee vs k s') : s'.Careful B before rest := by
  cases h with
  | gives | constructs => exact next
  | unreadable | refused | tooDeep => exact trivial
  | enters _ hbody =>
    cases hbody with
    | function => exact ⟨FunDecl.Sober.body hcallee, next⟩
    | @initializer _ i hi =>
      have hinit : i.function.Sober := hcallee.method? (D := .sober) hi
      exact ⟨hinit.body, next⟩

/-- The next argument is evaluated, or the call is made, with care. -/
theorem Proceeds.nextArgument (span : Span) {v : Value} (hv : v.Satisfies .sober)
    (known : List Value) {es : List Expr}
    (h : (AfterValue.callee span es k).Careful B before rest s.scope) :
    (s.nextArgument span v known es k).Ensures (Proceeds B before rest) := by
  obtain ⟨⟨hsober, hreads⟩, next⟩ := h
  cases es with
  | nil =>
    exact (s.call_called span v known.reverse k).imp fun _ h ↦ .same (.of_called next hv h)
  | cons e es =>
    exact .same ⟨⟨hsober e List.mem_cons_self, fun r hr ↦ hreads r (List.mem_append_left _ hr)⟩,
      ⟨fun e he ↦ hsober e (List.mem_cons_of_mem _ he),
        fun r hr ↦ hreads r (List.mem_append_right _ hr)⟩, next⟩

/-! #### Pending work goes on -/

/-- What waits for a value goes on with a step that proceeds. -/
theorem Proceeds.accept (hsize : 0 < s.heap.frames.size) {v : Value} (hv : v.Satisfies .sober)
    (hk : ∀ w ∈ k.values, w.Satisfies .sober) (next : k.Careful B before rest s.scope) :
    (s.accept table v k).Ensures (Proceeds B before rest) := by
  cases k with
  | discard | returns => exact .same next
  | print =>
    intro written
    cases written with
    | true => exact .same next
    | false => exact .same trivial
  | define x l => exact Proceeds.bindName hsize next v
  | inherit span x methods l =>
    cases v with
    | cls above => exact Proceeds.declareClass hsize next.2 (some above) methods
    | _ => exact .same trivial
  | choose yes no l =>
    obtain ⟨hyes, hno, next⟩ := next
    simp only [State.accept]
    split
    · exact .same (Careful.branch hyes next)
    · cases no with
      | none => exact .same next
      | some no => exact .same (Careful.branch (hno no rfl) next)
  | test loop l =>
    obtain ⟨hloop, next⟩ := next
    simp only [State.accept]
    split
    · exact .same (Careful.branch (l := .endRound loop l) hloop.body ⟨hloop, next⟩)
    · exact .same next
  | round loop l => exact .same (Careful.round next.1 next.2)
  | assign span x k => exact .same (.of_answers (k := k) next (.write x v v))
  | unary span op k => exact .same (.of_answers (k := k) next (.giveOr table _))
  | left span op e k =>
    simp only [State.accept]
    split
    · exact .same next.2
    · exact .same next
  | right span op w k => exact .same (.of_answers (k := k) next (.giveOr table _))
  | callee span es k =>
    simp only [State.accept]
    cases v.callable with
    | error cause => exact .same trivial
    | ok _ => exact Proceeds.nextArgument span hv [] next
  | argument span callee known es k =>
    exact Proceeds.nextArgument span (hk callee List.mem_cons_self) _ next
  | property span x k => exact .same (.of_answers (k := k) next (.readProperty table x v))
  | target span x e k =>
    simp only [State.accept]
    cases v.asObject x with
    | error cause => exact .same trivial
    | ok _ => exact .same next
  | field id x k => exact .same next
  | construct object k => exact .same next

/-- A call is left with care. -/
theorem Careful.leaveCall {outer : Chain} (next : k.Careful B before rest outer) (c : Closure)
    (flow : Flow) : (s.leaveCall outer c flow k).Careful B before rest := by
  unfold State.leaveCall
  dsimp only
  split
  · rcases s.heap.getAt c.scope "this" 0 with a | (- | this)
    · exact trivial
    · exact trivial
    · exact next
  · cases flow <;> exact next

/-- The next statement of the program itself is begun when what the statements before it declare is
bound. -/
theorem Proceeds.resume (flow : Flow) (next : l.Careful B before rest none s.scope)
    (hvetted : ∀ stmt others, rest = stmt :: others →
      (∀ x ∈ Node.declared (before.map .stmt), B x) → stmt.Vetted B) :
    (s.resume flow l).Ensures (Proceeds B before rest) := by
  cases l with
  | done =>
    cases flow with
    | normal => exact rfl
    | returned v => exact .same trivial
  | leave outer l => exact .same next
  | leaveCall outer c k => exact .same (Careful.leaveCall (k := k) next c flow)
  | enterLoop loop l => exact .same (Careful.round next.1 next.2)
  | endRound loop l =>
    obtain ⟨condition, step, body⟩ := loop
    obtain ⟨hloop, next⟩ := next
    cases flow with
    | returned v => exact .same next
    | normal =>
      cases step with
      | none => exact .same (Careful.round hloop next)
      | some step =>
        exact .same ⟨⟨hloop.step step rfl, fun _ _ _ h ↦ by cases h⟩, hloop, next⟩
  | sequence stmts l =>
    obtain ⟨hawaits, next⟩ := next
    cases stmts with
    | nil => cases flow <;> exact .same next
    | cons stmt stmts =>
      cases flow with
      | returned v => exact .same next
      | normal =>
        cases l with
        | done =>
          obtain ⟨rfl, hscope, hnames⟩ := hawaits
          have hbound : ∀ x ∈ Node.declared (before.map .stmt), B x :=
            fun x hx ↦ (hnames x hx).resolve_right (Option.some_ne_none x).symm
          refine .began stmt stmts rfl rfl ⟨⟨(hvetted stmt stmts rfl hbound).mono
            fun x hx ↦ ⟨rfl, hx⟩, fun _ _ ↦ List.getLast?_concat⟩, ⟨rfl, hscope, fun x hx ↦ ?_⟩,
            trivial⟩
          rw [List.map_append, Node.declared, List.filterMap_append] at hx
          rcases List.mem_append.1 hx with hx | hx
          · exact .inl (hbound x hx)
          · obtain ⟨n, hn, hdeclares⟩ := List.mem_filterMap.1 hx
            obtain rfl := List.mem_singleton.1 hn
            exact .inr hdeclares
        | _ =>
          have hstmt := hawaits stmt List.mem_cons_self
          exact .same ⟨⟨hstmt.vetted _, fun _ h ↦ by cases h⟩,
            fun s hs ↦ hawaits s (List.mem_cons_of_mem _ hs), next⟩

/-- What a step does with careful code. -/
theorem Careful.step (h : s.Careful B before rest) (hstuck : ¬ s.IsStuck)
    (hsize : 0 < s.heap.frames.size) (hs : s.Satisfies .sober)
    (hvetted : ∀ stmt others, rest = stmt :: others →
      (∀ x ∈ Node.declared (before.map .stmt), B x) → stmt.Vetted B) :
    (s.step table).Ensures (Proceeds B before rest) := by
  have hcontrol := hs.control
  unfold State.step
  unfold State.Careful at h
  unfold State.IsStuck at hstuck
  generalize s.control = c at h hcontrol hstuck
  cases c with
  | execute stmt l => exact Proceeds.execute hsize h
  | evaluate e k => exact .same (Careful.evaluate h)
  | value v k =>
    obtain ⟨hv, hk⟩ := List.forall_mem_cons.1 hcontrol
    exact Proceeds.accept hsize hv hk h
  | ended flow l => exact Proceeds.resume flow h hvetted
  | stuck t => exact absurd ⟨t, rfl⟩ hstuck

/-- The functions that a step makes of careful code are sober. -/
theorem Careful.supplies (h : s.Careful B before rest) : s.Supplies .sober table := by
  unfold State.Careful at h
  refine ⟨fun {f} hmakes ↦ ?_, fun _ hm ↦ hm, fun {f scope} hf _ ↦ ?_, fun _ _ ↦ trivial⟩
  · rcases hmakes with ⟨k, hcontrol⟩ | ⟨l, hcontrol⟩ <;> rw [hcontrol] at h
    · exact .of_node h.1.1 rfl
    · exact h.1.1.inside
  · unfold State.declaredMethods at hf
    split at hf
    · rename_i span x methods l hcontrol
      rw [hcontrol] at h
      exact .of_node (h.1.1.inside (.method f) (List.mem_map_of_mem hf)) rfl
    · rename_i c span x methods l hcontrol
      rw [hcontrol] at h
      exact h.1 f hf
    · cases hf

end Careful

/-! ### Runs -/

/-- All code is careful, and what was bound from the start or by the statements before is bound
now. -/
structure Minds (names : List String) (before rest : List Stmt) (t : State) : Prop where
  sober : t.Satisfies .sober
  careful : ∃ B : String → Prop, (∀ x ∈ names, B x) ∧
    (∀ x, B x → ((t.heap.frame 0).get? x).isSome) ∧ t.Careful B before rest

/-- A step stays within the statement at the top, or begins the next one, whose names are then
known. -/
theorem Minds.step {names : List String} {t t' : State} {table : Distances}
    (h : t.Minds names before rest) (hsize : 0 < t.heap.frames.size)
    (hkeeps : ∀ x, ((t.heap.frame 0).get? x).isSome → ((t'.heap.frame 0).get? x).isSome)
    (hvetted : ∀ stmt others, rest = stmt :: others →
      stmt.Vetted fun x ↦ x ∈ names ∨ x ∈ Node.declared (before.map .stmt))
    (hstep : t.Steps table t') :
    t'.Minds names before rest ∨ ∃ stmt others, rest = stmt :: others ∧
      t'.control = .execute stmt (.sequence others .done) ∧
      t'.Minds names (before ++ [stmt]) others := by
  obtain ⟨hs, B, hnames, hbound, hcareful⟩ := h
  have hs' : t'.Satisfies .sober := hs.step hcareful.supplies hstep
  have hbound' (x : String) (hx : B x) : ((t'.heap.frame 0).get? x).isSome :=
    hkeeps x (hbound x hx)
  have hproceeds : t'.Proceeds B before rest := by
    refine hstep.ensured (hcareful.step hstep.not_isStuck hsize hs fun stmt others hrest hdeclared ↦
      ?_)
    refine (hvetted stmt others hrest).mono fun x hx ↦ ?_
    exact hx.elim (hnames x) (hdeclared x)
  cases hproceeds with
  | same h => exact .inl ⟨hs', B, hnames, hbound', h⟩
  | bound x hx h =>
    refine .inl ⟨hs', _, fun y hy ↦ .inl (hnames y hy), fun y hy ↦ ?_, h⟩
    rcases hy with hy | rfl
    · exact hbound' y hy
    · exact hx
  | began stmt others hrest hcontrol h =>
    exact .inr ⟨stmt, others, hrest, hcontrol, hs', B, hnames, hbound', h⟩

/-- A program begins without functions of its own. -/
theorem Minds.start {h : Heap} (H : h.Satisfies .sober) (p : Program) :
    (State.start h p).Minds (h.frame Heap.globals.frame).names [] p := by
  refine ⟨⟨H, nofun⟩, fun x ↦ ((h.frame 0).get? x).isSome, fun x ↦ Table.mem_names.1,
    fun _ ↦ id, ⟨rfl, rfl, fun x hx ↦ ?_⟩, trivial⟩
  cases hx

end State

/-- An accepted program has no faults. -/
theorem Session.refusals_of_load {s s' : Session} {text : String} {p : Program}
    (hload : s.load text = (s', .ok p)) : p.refusals s.globalNames = [] := by
  rw [Program.refusals_eq]
  exact List.isEmpty_iff.1 (Session.load_eq_ok.1 hload).2.1

/-- What is bound globally stays bound. -/
theorem Heap.Becomes.isSome {h h' : Heap} {places : List Place} (H : h.Becomes places h')
    (hsize : 0 < h.frames.size) {x : String} (hx : ((h.frame 0).get? x).isSome) :
    0 < h'.frames.size ∧ ((h'.frame 0).get? x).isSome := by
  induction H with
  | refl => exact ⟨hsize, hx⟩
  | same _ frames _ ih =>
    rw [Heap.frame, frames]
    exact ih
  | @write _ h' _ f y _ v ih =>
    obtain ⟨hsize', hx'⟩ := ih
    refine ⟨by simpa [Heap.setIn] using hsize', ?_⟩
    by_cases hf : f = 0
    · subst hf
      rw [get?_frame_setIn hsize']
      split
      · rfl
      · exact hx'
    · rwa [frame_setIn_of_ne (Ne.symm hf)]
  | @push _ h' _ place t _ ih =>
    obtain ⟨hsize', hx'⟩ := ih
    refine ⟨by simp, ?_⟩
    rwa [show ({ h' with frames := h'.frames.push t } : Heap).frame 0 = h'.frame 0
      from frame_child_of_lt hsize' globals t]

namespace Moment

/-- At every moment there is a global frame. -/
theorem Reached.size_pos {M : Moment} (h : M.Reached) : 0 < M.heap.frames.size := by
  obtain ⟨known, -, -, htidy⟩ := h.sound
  rw [htidy.size]
  exact Nat.succ_pos _

/-- A step unbinds no global name. -/
theorem Reached.isSome_step {s : Session} {t t' : State} {places : List Place}
    (h : (running s t places).Reached) (hstep : t.Steps s.distances t') {x : String}
    (hx : ((t.heap.frame 0).get? x).isSome) : ((t'.heap.frame 0).get? x).isSome := by
  obtain ⟨known, -, hsound, -⟩ := h.sound
  obtain ⟨-, P, left, r, -, related⟩ := hsound.related hstep.not_isStuck
  obtain ⟨opened, -, H⟩ := hstep.changes related.isName
  exact (H.isSome h.size_pos hx).2

/-- The program that runs was accepted, and its code is careful. -/
def Minds : Moment → Prop
  | idle s _ => s.heap.Satisfies .sober
  | running _ t _ => ∃ (p : Program) (names : List String) (before rest : List Stmt),
    Stmt.AllProper p ∧ p.refusals names = [] ∧ p = before ++ rest ∧ t.Minds names before rest

/-- In an accepted program, a step minds what was bound. -/
theorem Reached.minds_step {s : Session} {t t' : State} {places : List Place} {p : Program}
    {names : List String} {before rest : List Stmt} (h : (running s t places).Reached)
    (hp : Stmt.AllProper p) (hfaults : p.refusals names = []) (hsplit : p = before ++ rest)
    (hminds : t.Minds names before rest) (hstep : t.Steps s.distances t') :
    t'.Minds names before rest ∨ ∃ stmt others, rest = stmt :: others ∧
      t'.control = .execute stmt (.sequence others .done) ∧
      t'.Minds names (before ++ [stmt]) others := by
  refine hminds.step h.size_pos (fun x ↦ h.isSome_step hstep) (fun stmt others hrest ↦ ?_) hstep
  exact Program.vetted hp hfaults (hrest ▸ hsplit)

/-- At every moment, all code is careful. -/
theorem Reached.minds {M : Moment} (h : M.Reached) : M.Minds := by
  induction h with
  | refl => exact satisfies_new
  | @tail N N' hN hnext ih =>
    cases hnext with
    | @refuse s s' places text faults hload =>
      have hheap := Session.heap_of_load hload
      show s'.heap.Satisfies .sober
      exact hheap ▸ ih
    | @accept s s' places text p hload =>
      have hheap := Session.heap_of_load hload
      have hread := (Session.load_eq_ok.1 hload).1
      refine ⟨p, s.globalNames, [], p, Program.proper_of_read hread,
        Session.refusals_of_load hload, rfl, ?_⟩
      rw [hheap]
      exact .start ih p
    | @step s t t' places hstep =>
      obtain ⟨p, names, before, rest, hp, hfaults, hsplit, hminds⟩ := ih
      rcases Reached.minds_step hN hp hfaults hsplit hminds hstep with
        hminds' | ⟨stmt, others, rfl, -, hminds'⟩
      · exact ⟨p, names, before, rest, hp, hfaults, hsplit, hminds'⟩
      · refine ⟨p, names, before ++ [stmt], others, hp, hfaults, ?_, hminds'⟩
        rw [hsplit, List.append_assoc, List.singleton_append]
    | leave =>
      obtain ⟨p, names, before, rest, -, -, -, hminds⟩ := ih
      exact hminds.sober.heap

end Moment

/-! ### The statements of a program -/

/-- On the way from the first state to the second, the statement was executed as one of the program
itself. -/
def State.Executed (table : Distances) (s : State) (places : List Place) (t : State)
    (places' : List Place) (stmt : Stmt) : Prop :=
  ∃ u others places₁, s.Reaches table places u places₁ ∧ u.Reaches table places₁ t places' ∧
    u.control = .execute stmt (.sequence others .done)

/-- A statement that was executed before a step was executed before the next moment. -/
theorem State.Executed.step {table : Distances} {s t t' : State} {places places' : List Place}
    {stmt : Stmt} (h : s.Executed table places t places' stmt) (hstep : t.Steps table t') :
    s.Executed table places t' (places' ++ t.opened t') stmt := by
  obtain ⟨u, others, places₁, hu, ht, hcontrol⟩ := h
  exact ⟨u, others, places₁, hu, ht.step hstep, hcontrol⟩

namespace Moment

variable {s s' : Session} {places places' : List Place} {text : String} {p : Program} {t : State}

/-- Whatever an accepted program comes to, it has executed some of its statements one after another,
and minds what they have bound. -/
theorem Reached.executed (h : (idle s places).Reached) (hload : s.load text = (s', .ok p))
    (hreaches : (State.start s'.heap p).Reaches s'.distances places t places') :
    (running s' t places').Reached ∧ ∃ before rest, p = before ++ rest ∧
      t.Minds s.globalNames before rest ∧
      ∀ stmt ∈ before, (State.start s'.heap p).Executed s'.distances places t places' stmt := by
  have hheap := Session.heap_of_load hload
  have hp := Program.proper_of_read (Session.load_eq_ok.1 hload).1
  induction hreaches with
  | refl =>
    refine ⟨h.tail (.accept hload), [], p, rfl, ?_, fun _ hstmt ↦ absurd hstmt List.not_mem_nil⟩
    rw [hheap]
    exact .start h.minds p
  | @step t t' places' hreaches hstep ih =>
    obtain ⟨hreached, before, rest, hsplit, hminds, hexecuted⟩ := ih
    refine ⟨hreached.step hstep, ?_⟩
    rcases hreached.minds_step hp (Session.refusals_of_load hload) hsplit hminds hstep with
      hminds' | ⟨stmt, others, rfl, hcontrol, hminds'⟩
    · exact ⟨before, rest, hsplit, hminds', fun stmt hstmt ↦ (hexecuted stmt hstmt).step hstep⟩
    · refine ⟨before ++ [stmt], others, by simp [hsplit], hminds', fun stmt' hstmt' ↦ ?_⟩
      rcases List.mem_append.1 hstmt' with hstmt' | hstmt'
      · exact (hexecuted stmt' hstmt').step hstep
      · obtain rfl := List.mem_singleton.1 hstmt'
        exact ⟨t', others, _, hreaches.step hstep, .refl, hcontrol⟩

/-- While the value of a variable is computed, a plain reference to it is evaluated only if the
variable is a global one that is bound, and then it has a value. -/
theorem Reached.lookup_own (h : (running s t places).Reached) {names : List String}
    {before rest : List Stmt} (hminds : t.Minds names before rest) {span : Span} {x : String}
    {k : AfterValue} {l : AfterStmt} (hcontrol : t.control = .evaluate (.var span x) k)
    (hk : k.target? = some (x, l)) :
    t.scope = Heap.globals ∧ ((t.heap.frame 0).get? x).isSome ∧
      ∃ v, t.lookup s.distances span x = .ok v := by
  obtain ⟨-, B, -, hbound, hcareful⟩ := hminds
  unfold State.Careful at hcareful
  rw [hcontrol] at hcareful
  obtain ⟨⟨-, hreads⟩, hcareful⟩ := hcareful
  obtain ⟨htop, hB⟩ := hreads ⟨x, span⟩ List.mem_cons_self l hk
  have hscope := (hcareful.of_target? hk).scope_eq htop
  have hx := hbound x hB
  refine ⟨hscope, hx, ?_⟩
  -- in the global scope there are no layers, so the reference has no distance
  have hstuck : ¬ t.IsStuck := fun ⟨_, h⟩ ↦ Control.noConfusion (h.symm.trans hcontrol)
  have hreference : t.reference? = some (span, x) := by
    unfold State.reference?
    rw [hcontrol]
  obtain ⟨known, -, hsound, -⟩ := h.sound
  obtain ⟨hknows, P, left, r, -, related⟩ := hsound.related hstuck
  obtain ⟨cx, L, hK, stands⟩ := related.of_reference? hreference
  obtain ⟨rfl, -⟩ := stands.of_frame_eq_zero (by rw [hscope]; rfl)
  have hdistance : s.distances.lookup span = none := hknows.lookup _ hK
  obtain ⟨v, hv⟩ := Option.isSome_iff_exists.1 hx
  have hbinder : t.heap.binder? Heap.globals x = some 0 := by
    simp [Heap.binder?, Heap.globals, Chain.frames, hx]
  refine ⟨v, ?_⟩
  unfold State.lookup State.frameOf
  rw [hdistance, hbinder]
  simp only [hv]

/-- The check of initializers at the top of a program is sound across the sources of a session.
Whatever came before, when a declaration at the top of an accepted program is executed whose
initializer reads its own variable by a plain reference, that variable is bound globally: it was
before the program began, or an earlier statement of the program declares it, which has been
executed. So all such references find a value while the initializer is evaluated. -/
theorem Reached.global_initializer (h : (idle s places).Reached)
    (hload : s.load text = (s', .ok p))
    (hreaches : (State.start s'.heap p).Reaches s'.distances places t places') :
    (∀ span x e rest, t.control = .execute (.varDecl span x (some e)) (.sequence rest .done) →
      (∃ r ∈ e.reads, r.text = x) →
      ((t.heap.frame 0).get? x).isSome ∧
        (((s.heap.frame 0).get? x).isSome ∨
          ∃ before stmt, p = before ++ .varDecl span x (some e) :: rest ∧ stmt ∈ before ∧
            stmt.declares = some x ∧
            (State.start s'.heap p).Executed s'.distances places t places' stmt)) ∧
    ∀ span x k rest, t.control = .evaluate (.var span x) k →
      k.target? = some (x, .sequence rest .done) →
      ∃ v, t.lookup s'.distances span x = .ok v := by
  obtain ⟨hreached, before, rest, hsplit, hminds, hexecuted⟩ := h.executed hload hreaches
  refine ⟨fun span x e others hcontrol ⟨r, hr, hx⟩ ↦ ?_, fun span x k others hcontrol hk ↦ ?_⟩
  · obtain ⟨-, B, hnames, hbound, hcareful⟩ := hminds
    unfold State.Careful at hcareful
    rw [hcontrol] at hcareful
    obtain ⟨⟨hvetted, hlast⟩, ⟨rfl, -, -⟩, -⟩ := hcareful
    refine ⟨hbound x (hvetted.own span x e rfl r hr hx).2, ?_⟩
    obtain ⟨earlier, rfl⟩ := List.getLast?_eq_some_iff.1 (hlast rfl rfl)
    rw [List.append_assoc, List.singleton_append] at hsplit
    have hp := Program.proper_of_read (Session.load_eq_ok.1 hload).1
    have hvetted := Program.vetted hp (Session.refusals_of_load hload) hsplit
    have hown := hvetted.own span x e rfl r hr hx
    rcases hown with hglobal | hdeclared
    · exact .inl (Table.mem_names.1 hglobal)
    · obtain ⟨n, hn, hdeclares⟩ := List.mem_filterMap.1 hdeclared
      obtain ⟨stmt, hstmt, rfl⟩ := List.mem_map.1 hn
      exact .inr ⟨earlier, stmt, hsplit, hstmt, hdeclares,
        hexecuted stmt (List.mem_append_left _ hstmt)⟩
  · exact (hreached.lookup_own hminds hcontrol hk).2.2

/-- The second declaration of a global variable reads what the first has bound. -/
theorem Reached.global_initializer_again :
    ∃ s p t places, Session.new.load "var a; var a = a;" = (s, .ok p) ∧
      (State.start s.heap p).Reaches s.distances [] t places ∧
      t.control = .evaluate (.var ⟨15, 16⟩ "a") (.define "a" (.sequence [] .done)) ∧
      ∃ v, t.lookup s.distances ⟨15, 16⟩ "a" = .ok v := by
  have hload : Session.new.load "var a; var a = a;" =
      (⟨"var a; var a = a;\n", [], Session.new.heap⟩,
        .ok [.varDecl ⟨0, 6⟩ "a" none, .varDecl ⟨7, 17⟩ "a" (some (.var ⟨15, 16⟩ "a"))]) :=
    Session.load_of_read Session.globalNames_new (by decide +kernel) rfl rfl rfl
  obtain ⟨t, places, hreaches, ht⟩ : ∃ t places,
      (State.start Session.new.heap [.varDecl ⟨0, 6⟩ "a" none,
        .varDecl ⟨7, 17⟩ "a" (some (.var ⟨15, 16⟩ "a"))]).Reaches [] [] t places ∧
        t.control = .evaluate (.var ⟨15, 16⟩ "a") (.define "a" (.sequence [] .done)) :=
    ⟨_, _, State.Reaches.refl |>.step (.moved rfl) |>.step (.moved rfl) |>.step (.moved rfl)
      |>.step (.moved rfl), rfl⟩
  exact ⟨_, _, t, places, hload, hreaches, ht,
    (Reached.global_initializer .refl hload hreaches).2 _ _ _ _ ht rfl⟩

end Moment

/-- The check of initializers covers all plain references outside of function literals. If the
variable is local, or is not bound globally, such a reference in its own initializer is refused; so
when an accepted program evaluates one, the variable is a global one that is bound, and has a
value. -/
theorem Program.initializers_apart (text : String) :
    (∀ offset p globals, Program.read text offset = .ok p →
      ∀ site ∈ p.sites, ∀ span x e, site.node = .stmt (.varDecl span x (some e)) →
        (site.path = [] → x ∉ globals ∧ x ∉ Node.declared site.earlier) →
        ∀ r ∈ e.reads, r.text = x →
          ⟨.readInOwnInitializer x, r.span⟩ ∈ p.refusals globals) ∧
    ∀ s places, (Moment.idle s places).Reached → ∀ s' p, s.load text = (s', .ok p) →
      ∀ t places', (State.start s'.heap p).Reaches s'.distances places t places' →
        ∀ span x k l, t.control = .evaluate (.var span x) k → k.target? = some (x, l) →
          t.scope = Heap.globals ∧ ((t.heap.frame 0).get? x).isSome ∧
            ∃ v, t.lookup s'.distances span x = .ok v := by
  constructor
  · intro offset p globals hread site hsite span x e hnode hnew r hr hx
    exact mem_refusals_of_reads (proper_of_read hread) globals hsite hnode hnew hr hx
  · intro s places h s' p hload t places' hreaches span x k l hcontrol hk
    obtain ⟨hreached, before, rest, -, hminds, -⟩ := h.executed hload hreaches
    exact hreached.lookup_own hminds hcontrol hk

/-- A local variable that is read in its initializer, and a global one that is declared again. -/
theorem Program.initializers_apart_block :
    (∃ p, Program.read "\x7b var x = x; \x7d" 0 = .ok p ∧
      ⟨.readInOwnInitializer "x", ⟨10, 11⟩⟩ ∈ p.refusals []) ∧
    ∃ s p t places, Session.new.load "var a; var a = -a;" = (s, .ok p) ∧
      (State.start s.heap p).Reaches s.distances [] t places ∧
      t.control = .evaluate (.var ⟨16, 17⟩ "a")
        (.unary ⟨15, 17⟩ .negate (.define "a" (.sequence [] .done))) ∧
      ∃ v, t.lookup s.distances ⟨16, 17⟩ "a" = .ok v := by
  have hread : Program.read "\x7b var x = x; \x7d" 0 =
      .ok [.block ⟨0, 14⟩ [.varDecl ⟨2, 12⟩ "x" (some (.var ⟨10, 11⟩ "x"))]] := by
    decide +kernel
  have hload : Session.new.load "var a; var a = -a;" =
      (⟨"var a; var a = -a;\n", [], Session.new.heap⟩,
        .ok [.varDecl ⟨0, 6⟩ "a" none,
          .varDecl ⟨7, 18⟩ "a" (some (.unary ⟨15, 17⟩ .negate (.var ⟨16, 17⟩ "a")))]) :=
    Session.load_of_read Session.globalNames_new (by decide +kernel) rfl rfl rfl
  obtain ⟨t, places, hreaches, ht⟩ : ∃ t places,
      (State.start Session.new.heap [.varDecl ⟨0, 6⟩ "a" none,
        .varDecl ⟨7, 18⟩ "a" (some (.unary ⟨15, 17⟩ .negate (.var ⟨16, 17⟩ "a")))]).Reaches
          [] [] t places ∧
        t.control = .evaluate (.var ⟨16, 17⟩ "a")
          (.unary ⟨15, 17⟩ .negate (.define "a" (.sequence [] .done))) :=
    ⟨_, _, State.Reaches.refl |>.step (.moved rfl) |>.step (.moved rfl) |>.step (.moved rfl)
      |>.step (.moved rfl) |>.step (.moved rfl), rfl⟩
  refine ⟨⟨_, hread, ?_⟩, _, _, t, places, hload, hreaches, ht, ?_⟩
  · refine (Program.initializers_apart _).1 _ _ [] hread
      ⟨⟨.stmt (.varDecl ⟨2, 12⟩ "x" (some (.var ⟨10, 11⟩ "x"))), []⟩,
        [⟨.stmt (.block ⟨0, 14⟩ [.varDecl ⟨2, 12⟩ "x" (some (.var ⟨10, 11⟩ "x"))]), []⟩]⟩
      ?_ _ _ _ rfl ?_ ⟨"x", ⟨10, 11⟩⟩ List.mem_cons_self rfl
    · exact List.mem_flatMap.2 ⟨_, List.mem_cons_self,
        Visit.mem_sites_of_child List.mem_cons_self (Visit.here_mem_sites _ _)⟩
    · intro hpath
      cases hpath
  · exact ((Program.initializers_apart _).2 _ _ .refl _ _ hload _ _ hreaches _ _ _ _ ht rfl).2.2

/-- An increment is a reference that the check does not cover: the program is accepted, and its
variable is read before it has a value. -/
theorem Program.incremented_in_initializer :
    ∃ s p t places t', Session.new.load "\x7b var x = x++; \x7d" = (s, .ok p) ∧
      (State.start s.heap p).Reaches s.distances [] t places ∧
      t.control = .evaluate (.step ⟨10, 13⟩ .after .increment "x")
        (.define "x" (.sequence [] (.leave Heap.globals (.sequence [] .done)))) ∧
      t.Steps s.distances t' ∧ t'.control = .stuck (.anomaly (.missingLocal "x")) := by
  have hload : Session.new.load "\x7b var x = x++; \x7d" =
      (⟨"\x7b var x = x++; \x7d\n", [(⟨10, 13⟩, 0)], Session.new.heap⟩,
        .ok [.block ⟨0, 16⟩
          [.varDecl ⟨2, 14⟩ "x" (some (.step ⟨10, 13⟩ .after .increment "x"))]]) :=
    Session.load_of_read Session.globalNames_new (by decide +kernel) rfl rfl rfl
  obtain ⟨t, places, t', hreaches, ht, hstep, hstuck⟩ : ∃ t places t',
      (State.start Session.new.heap [.block ⟨0, 16⟩
        [.varDecl ⟨2, 14⟩ "x" (some (.step ⟨10, 13⟩ .after .increment "x"))]]).Reaches
          [(⟨10, 13⟩, 0)] [] t places ∧
        t.control = .evaluate (.step ⟨10, 13⟩ .after .increment "x")
          (.define "x" (.sequence [] (.leave Heap.globals (.sequence [] .done)))) ∧
        t.Steps [(⟨10, 13⟩, 0)] t' ∧ t'.control = .stuck (.anomaly (.missingLocal "x")) :=
    ⟨_, _, _, State.Reaches.refl |>.step (.moved rfl) |>.step (.moved rfl)
      |>.step (.moved rfl) |>.step (.moved rfl), rfl, .moved rfl, rfl⟩
  exact ⟨_, _, t, places, t', hload, hreaches, ht, hstep, hstuck⟩

end LoxLang
