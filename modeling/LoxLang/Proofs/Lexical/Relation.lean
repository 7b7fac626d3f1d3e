import LoxLang.Proofs.Lexical.Memory
import LoxLang.Proofs.Runs

/-!
# States of the two machines

When a state of the machine with distances and one of the machine with lexical environments are at
the same point of the same run (`Related`). They do the same next and have the same pending work
(`AfterValueRel`, `AfterStmtRel`), all of whose parts fit the layers in which they will go on. Work
that is to go on in an outer scope comes with the layers of that scope; its frame was made before
the present one, so that what is declared in between does not concern it.
-/

namespace LoxLang

/-! ### Where a state stands -/

/-- The frame has just the variables of the innermost layer. -/
def Plan.Exact (P : Plan) (f : FrameId) : Layers → Prop
  | [] => True
  | l :: _ => ∃ i, P.info? f = some i ∧ i.cells.map (·.1) = l.names

/-- The chain and the environment belong to these surroundings and layers, and declarations go to
the innermost of them. -/
structure Stands (P : Plan) (cx : Surroundings) (L : Layers) (scope : Chain) (e : Lexical.Env) :
    Prop where
  sees : P.Sees L scope.frames e.names
  isLocal : e.isLocal = !L.isEmpty
  exact : P.Exact scope.frame L
  surrounds : Surrounds cx L

/-- The innermost layer declares the name, unless there is none. -/
def Layers.Declared (x : String) : Layers → Prop
  | [] => True
  | l :: _ => x ∈ l.names

/-- A name is declared once it has been. -/
theorem Layers.declared_declare (x : String) (L : Layers) : (L.declare x).Declared x := by
  cases L with
  | nil => trivial
  | cons l L => exact List.mem_cons_self

namespace Stands

variable {P P' : Plan} {cx : Surroundings} {L : Layers} {scope : Chain} {e : Lexical.Env}

theorem top : Stands P {} [] Heap.globals .top := ⟨.globals, rfl, trivial, .top⟩

/-- A scope stands still when later frames have been made. -/
theorem mono (h : Stands P cx L scope e) {f : Nat} (hP : P.Grows f P') (hlt : scope.frame < f) :
    Stands P' cx L scope e := by
  refine ⟨h.sees.mono hP.toLe, h.isLocal, ?_, h.surrounds⟩
  cases L with
  | nil => trivial
  | cons l L =>
    obtain ⟨i, hi, hnames⟩ := h.exact
    exact ⟨i, (hP.below _ hlt).trans hi, hnames⟩

/-- Only the global frame stands in no layer. -/
theorem frame_eq_zero (h : Stands P cx L scope e) : scope.frame = 0 ↔ L = [] := by
  obtain ⟨frame, outer⟩ := scope
  obtain ⟨names, isLocal⟩ := e
  have hsees := h.sees
  unfold Chain.frames at hsees
  cases hsees with
  | globals => exact ⟨fun _ ↦ rfl, fun _ ↦ rfl⟩
  | layer _ hplace _ _ _ =>
    refine ⟨fun (h0 : frame = 0) ↦ ?_, nofun⟩
    subst h0
    cases hplace

/-- Only the global scope begins with the global frame. -/
theorem of_frame_eq_zero (h : Stands P cx L scope e) (h0 : scope.frame = 0) :
    L = [] ∧ scope = Heap.globals := by
  obtain rfl := h.frame_eq_zero.1 h0
  obtain ⟨frame, outer⟩ := scope
  obtain ⟨names, isLocal⟩ := e
  have hsees := h.sees
  unfold Chain.frames at hsees
  cases hsees with
  | globals => exact ⟨rfl, rfl⟩

/-- The frame of a scope is one of those that there are. -/
theorem frame_lt (h : Stands P cx L scope e) : scope.frame < P.length + 1 := by
  cases L with
  | nil =>
    rw [h.frame_eq_zero.2 rfl]
    exact Nat.succ_pos _
  | cons l L => exact Plan.lt_of_place? (by rw [h.sees.place_head]; rfl)

/-- A scope with a layer begins with a frame that was made at a place. -/
theorem place_isSome {l : Layer} (h : Stands P cx (l :: L) scope e) :
    (P.place? scope.frame).isSome := by
  rw [h.sees.place_head]
  rfl

/-- A name that is not declared in the innermost layer has no cell in the innermost frame. -/
theorem cell?_eq_none {l : Layer} (h : Stands P cx (l :: L) scope e) {x : String}
    (hx : Layers.Free x (l :: L)) : P.cell? scope.frame x = none := by
  obtain ⟨i, hi, hnames⟩ := h.exact
  rw [Plan.cell?, hi]
  exact (Plan.Sees.lookup_eq_none hnames).2 hx

/-- A frame for a new scope is entered. -/
theorem enter (sees : P.Sees L scope.frames e.names) (surrounds : Surrounds cx L) (place : Place) :
    Stands (P.enter place) cx (⟨place, []⟩ :: L) (scope.push (P.length + 1)) e.inner :=
  ⟨sees.enter place, rfl, ⟨_, Plan.info?_enter_self, rfl⟩, surrounds.cons nofun nofun⟩

/-- A variable is declared in the innermost scope, which is a local one. -/
theorem declare {l : Layer} (h : Stands P cx (l :: L) scope e) {x : String}
    (hfree : Layers.Free x (l :: L)) (hx : IsName x) (c : Nat) :
    Stands (P.declare scope.frame x c) cx (Layers.declare x (l :: L)) scope (e.bind x c) := by
  obtain ⟨i, hi, hnames⟩ := h.exact
  refine ⟨h.sees.declare (h.cell?_eq_none hfree) c, rfl, ?_, h.surrounds.declare hx⟩
  exact ⟨_, Plan.info?_declare_self hi, congrArg (x :: ·) hnames⟩

end Stands

/-! ### Pending work -/

section Work

variable (K : Reference → Prop) (P : Plan)

/-- The parts of a loop may stand there, and its body declares nothing of its own. -/
structure FitsLoop (cx : Surroundings) (L : Layers) (loop : Loop) : Prop where
  condition : FitsExpr? K cx L loop.condition
  step : FitsExpr? K cx L loop.step
  body : FitsStmt K cx L loop.body
  declares : loop.body.declares = none

/-- The two statements end in the same way. Only a function is left by a `return`, and an
initializer returns no value of its own. -/
inductive FlowRel (cx : Surroundings) : Flow → Lexical.Flow → Prop
  | normal : FlowRel cx .normal .normal
  | returned {v : Value} {v' : Lexical.Value} (hcx : cx.function.isSome = true)
      (hnil : cx.function = some .initializer → v = .nil) (hv : ValueRel K P v v') :
      FlowRel cx (.returned v) (.returned v')

mutual

/-- The two wait for the same value, in these layers and this frame, for the same purpose. -/
inductive AfterValueRel : Surroundings → Layers → FrameId → AfterValue → Lexical.AfterValue → Prop
  | discard {cx L f k k'} (next : AfterStmtRel cx L f k k') :
      AfterValueRel cx L f (.discard k) (.discard k')
  | print {cx L f span k k'} (next : AfterStmtRel cx L f k k') :
      AfterValueRel cx L f (.print span k) (.print span k')
  | define {cx L f x k k'} (hx : IsName x) (declared : Layers.Declared x L)
      (next : AfterStmtRel cx L f k k') : AfterValueRel cx L f (.define x k) (.define x k')
  | inherit {cx L f span x methods k k'} (hx : IsName x) (declared : Layers.Declared x L)
      (fits : FitsMethods K { cx with cls := some ⟨x, true⟩ }
        (⟨.superclass span, ["super"]⟩ :: L) methods)
      (next : AfterStmtRel cx L f k k') :
      AfterValueRel cx L f (.inherit span x methods k) (.inherit span x methods k')
  | choose {cx L f yes no k k'} (hyes : FitsStmt K cx L yes) (hno : FitsStmt? K cx L no)
      (declares : yes.declares = none) (declares' : no.bind Stmt.declares = none)
      (next : AfterStmtRel cx L f k k') :
      AfterValueRel cx L f (.choose yes no k) (.choose yes no k')
  | test {cx L f loop k k'} (fits : FitsLoop K cx L loop) (next : AfterStmtRel cx L f k k') :
      AfterValueRel cx L f (.test loop k) (.test loop k')
  | round {cx L f loop k k'} (fits : FitsLoop K cx L loop) (next : AfterStmtRel cx L f k k') :
      AfterValueRel cx L f (.round loop k) (.round loop k')
  | returns {cx L f k k'} (hcx : cx.function.isSome = true)
      (hvalue : cx.function ≠ some .initializer) (next : AfterStmtRel cx L f k k') :
      AfterValueRel cx L f (.returns k) (.returns k')
  | assign {cx L f span x k k'} (hx : IsName x) (known : K ⟨span, x, L⟩)
      (next : AfterValueRel cx L f k k') :
      AfterValueRel cx L f (.assign span x k) (.assign span x k')
  | unary {cx L f span op k k'} (next : AfterValueRel cx L f k k') :
      AfterValueRel cx L f (.unary span op k) (.unary span op k')
  | left {cx L f span op e k k'} (fits : FitsExpr K cx L e) (next : AfterValueRel cx L f k k') :
      AfterValueRel cx L f (.left span op e k) (.left span op e k')
  | right {cx L f span op v v' k k'} (hv : ValueRel K P v v') (next : AfterValueRel cx L f k k') :
      AfterValueRel cx L f (.right span op v k) (.right span op v' k')
  | callee {cx L f span es k k'} (fits : FitsExprs K cx L es) (next : AfterValueRel cx L f k k') :
      AfterValueRel cx L f (.callee span es k) (.callee span es k')
  | argument {cx L f span v v' vs vs' es k k'} (hv : ValueRel K P v v')
      (hvs : List.Forall₂ (ValueRel K P) vs vs') (fits : FitsExprs K cx L es)
      (next : AfterValueRel cx L f k k') :
      AfterValueRel cx L f (.argument span v vs es k) (.argument span v' vs' es k')
  | property {cx L f span x k k'} (next : AfterValueRel cx L f k k') :
      AfterValueRel cx L f (.property span x k) (.property span x k')
  | target {cx L f span x e k k'} (fits : FitsExpr K cx L e) (next : AfterValueRel cx L f k k') :
      AfterValueRel cx L f (.target span x e k) (.target span x e k')
  | field {cx L f i x k k'} (next : AfterValueRel cx L f k k') :
      AfterValueRel cx L f (.field i x k) (.field i x k')
  | construct {cx L f v v' k k'} (hv : ValueRel K P v v') (next : AfterValueRel cx L f k k') :
      AfterValueRel cx L f (.construct v k) (.construct v' k')

/-- The two wait for the end of a statement, in these layers and this frame, for the same
purpose. -/
inductive AfterStmtRel : Surroundings → Layers → FrameId → AfterStmt → Lexical.AfterStmt → Prop
  | done {cx L} (hcx : cx.function = none) : AfterStmtRel cx L 0 .done .done
  /-- A `return` skips the rest, so what comes after it may come in any layers. -/
  | sequence {cx L f rest k k'} (fits : FitsStmts K cx L rest)
      (next : ∀ L', AfterStmtRel cx L' f k k') :
      AfterStmtRel cx L f (.sequence rest k) (.sequence rest k')
  | leave {cx L f L₀ scope e k k'} (stands : Stands P cx L₀ scope e) (hlt : scope.frame < f)
      (next : AfterStmtRel cx L₀ scope.frame k k') :
      AfterStmtRel cx L f (.leave scope k) (.leave e k')
  | leaveCall {cx L f cx₀ L₀ scope e c c' k k'} (stands : Stands P cx₀ L₀ scope e)
      (hlt : scope.frame < f) (hc : FunctionRel K P c c')
      (initializer : c.isInitializer = true → cx.function = some .initializer)
      (next : AfterValueRel cx₀ L₀ scope.frame k k') :
      AfterStmtRel cx L f (.leaveCall scope c k) (.leaveCall e c' k')
  | enterLoop {cx L f loop k k'} (fits : FitsLoop K cx L loop) (next : AfterStmtRel cx L f k k') :
      AfterStmtRel cx L f (.enterLoop loop k) (.enterLoop loop k')
  | endRound {cx L f loop k k'} (fits : FitsLoop K cx L loop) (next : AfterStmtRel cx L f k k') :
      AfterStmtRel cx L f (.endRound loop k) (.endRound loop k')

end

end Work

section Mono

variable {K : Reference → Prop} {P P' : Plan} {cx : Surroundings} {L : Layers}

mutual

/-- Pending work stays the same while the plan grows at its frame and above. -/
theorem AfterValueRel.mono {cx : Surroundings} {L : Layers} {f : FrameId} {k : AfterValue}
    {k' : Lexical.AfterValue} (hP : P.Grows f P') (h : AfterValueRel K P cx L f k k') :
    AfterValueRel K P' cx L f k k' :=
  match h with
  | .discard next => .discard (next.mono hP)
  | .print next => .print (next.mono hP)
  | .define hx declared next => .define hx declared (next.mono hP)
  | .inherit hx declared fits next => .inherit hx declared fits (next.mono hP)
  | .choose hyes hno declares declares' next =>
    .choose hyes hno declares declares' (next.mono hP)
  | .test fits next => .test fits (next.mono hP)
  | .round fits next => .round fits (next.mono hP)
  | .returns hcx hvalue next => .returns hcx hvalue (next.mono hP)
  | .assign hx known next => .assign hx known (next.mono hP)
  | .unary next => .unary (next.mono hP)
  | .left fits next => .left fits (next.mono hP)
  | .right hv next => .right (hv.mono (fun _ ↦ id) hP.toLe) (next.mono hP)
  | .callee fits next => .callee fits (next.mono hP)
  | .argument hv hvs fits next =>
    .argument (hv.mono (fun _ ↦ id) hP.toLe)
      (hvs.imp fun _ _ hv ↦ hv.mono (fun _ ↦ id) hP.toLe) fits (next.mono hP)
  | .property next => .property (next.mono hP)
  | .target fits next => .target fits (next.mono hP)
  | .field next => .field (next.mono hP)
  | .construct hv next => .construct (hv.mono (fun _ ↦ id) hP.toLe) (next.mono hP)

/-- Pending work is related still when later frames have been made. -/
theorem AfterStmtRel.mono {cx : Surroundings} {L : Layers} {f : FrameId} {k : AfterStmt}
    {k' : Lexical.AfterStmt} (hP : P.Grows f P') (h : AfterStmtRel K P cx L f k k') :
    AfterStmtRel K P' cx L f k k' :=
  match h with
  | .done hcx => .done hcx
  | .sequence fits next => .sequence fits fun L' ↦ (next L').mono hP
  | .leave stands hlt next =>
    .leave (stands.mono hP hlt) hlt (next.mono (hP.mono (Nat.le_of_lt hlt)))
  | .leaveCall stands hlt hc initializer next =>
    .leaveCall (stands.mono hP hlt) hlt (hc.mono (fun _ ↦ id) hP.toLe) initializer
      (next.mono (hP.mono (Nat.le_of_lt hlt)))
  | .enterLoop fits next => .enterLoop fits (next.mono hP)
  | .endRound fits next => .endRound fits (next.mono hP)

end

end Mono

/-! ### States -/

section States

variable (K : Reference → Prop) (P : Plan)

/-- The two do the same next, in these layers and this frame. -/
inductive ControlRel (cx : Surroundings) (L : Layers) (f : FrameId) :
    Control → Lexical.Control → Prop
  | execute {stmt k k'} (fits : FitsStmt K cx L stmt)
      (next : AfterStmtRel K P cx (Layers.after L stmt) f k k') :
      ControlRel cx L f (.execute stmt k) (.execute stmt k')
  | evaluate {e k k'} (fits : FitsExpr K cx L e) (next : AfterValueRel K P cx L f k k') :
      ControlRel cx L f (.evaluate e k) (.evaluate e k')
  | value {v v' k k'} (hv : ValueRel K P v v') (next : AfterValueRel K P cx L f k k') :
      ControlRel cx L f (.value v k) (.value v' k')
  | ended {flow flow' k k'} (hflow : FlowRel K P cx flow flow')
      (next : AfterStmtRel K P cx L f k k') :
      ControlRel cx L f (.ended flow k) (.ended flow' k')

/-- The two states stand at the same place and have the same memory. Besides the variables whose
first values are being computed, only those in `left` may have no value. -/
structure Meets (left : List (FrameId × String)) (cx : Surroundings) (L : Layers) (s : State)
    (r : Lexical.State) : Prop where
  stands : Stands P cx L s.scope r.env
  depth : r.depth = s.depth
  heap : HeapRel K P (s.initializing ++ left) s.heap r.memory

/-- The two states are at the same point of the same run. -/
inductive Related (left : List (FrameId × String)) (s : State) (r : Lexical.State) : Prop
  | mk {cx : Surroundings} {L : Layers} (meets : Meets K P left cx L s r)
      (control : ControlRel K P cx L s.scope.frame s.control r.control)

end States

end LoxLang
