import LoxLang.Proofs.Globals
import LoxLang.Proofs.Transitions

/-!
# The global names that a run binds

A run binds no global name but those that its program binds (`State.Confined.step`). What is pending
may bind some more of them: a declaration whose value is being computed, the statements that are
still to be executed. Pending work that goes on in a local scope binds nothing in the global one.

Along with the names, `Confined` counts the calls that the pending work is nested in, so that no
function body is being executed when the program ends.
-/

namespace LoxLang

variable {B : String → Prop}

/-! ### The global frame -/

/-- There is a global frame, and it binds only names with `B`. -/
structure Heap.Confined (B : String → Prop) (h : Heap) : Prop where
  size_pos : 0 < h.frames.size
  bound : ∀ x, ((h.frame 0).get? x).isSome → B x

/-- The frame is a local one, or all of the names have `B`. -/
def Allows (B : String → Prop) (f : FrameId) (names : List String) : Prop :=
  f = 0 → ∀ x ∈ names, B x

namespace Heap.Confined

variable {h : Heap}

/-- A variable that is allowed may be written. -/
theorem setIn (H : h.Confined B) {f : FrameId} {x : String} (hx : Allows B f [x]) (v : Value) :
    (h.setIn f x v).Confined B := by
  refine ⟨by simpa [Heap.setIn] using H.size_pos, fun y hy ↦ ?_⟩
  by_cases hf : f = 0
  · subst hf
    rw [frame_setIn_self H.size_pos] at hy
    by_cases hxy : y = x
    · exact hx rfl y (List.mem_singleton.2 hxy)
    · rw [Table.get?_set_of_ne hxy] at hy
      exact H.bound y hy
  · rw [frame_setIn_of_ne (Ne.symm hf)] at hy
    exact H.bound y hy

/-- A new frame is no global one, so it may bind anything. -/
theorem child (H : h.Confined B) (c : Chain) (bound : Table) : (h.child c bound).2.Confined B := by
  refine ⟨by simp [Heap.child], fun x hx ↦ ?_⟩
  rw [frame_child_of_lt H.size_pos] at hx
  exact H.bound x hx

theorem bindMethod (H : h.Confined B) (c : Closure) (this : Value) :
    (h.bindMethod c this).2.Confined B :=
  H.child c.scope _

/-- A new class binds nothing in the global frame. -/
theorem newClass (H : h.Confined B) (scope : Chain) (name : String) (above : Option Class)
    (methods : List FunDecl) : (h.newClass scope name above methods).2.Confined B := by
  cases above with
  | none => exact ⟨H.size_pos, H.bound⟩
  | some c =>
    have H' := H.child scope [("super", .cls c)]
    exact ⟨H'.size_pos, H'.bound⟩

end Heap.Confined

/-! ### Pending work -/

mutual

/-- What is pending binds no global name without `B`, where the present frame is `f` and `d`
function bodies are being executed. -/
def AfterValue.Confined (B : String → Prop) (d : Nat) (f : FrameId) : AfterValue → Prop
  | .define x next | .inherit _ x _ next => Allows B f [x] ∧ next.Confined B d f
  | .choose yes no next => Allows B f (yes.binds ++ Stmt.binds? no) ∧ next.Confined B d f
  | .test loop next | .round loop next => Allows B f loop.body.binds ∧ next.Confined B d f
  | .discard next | .print _ next | .returns next => next.Confined B d f
  | .assign _ _ next | .unary _ _ next | .left _ _ _ next | .right _ _ _ next | .callee _ _ next
  | .argument _ _ _ _ next | .property _ _ next | .target _ _ _ next | .field _ _ next
  | .construct _ next => next.Confined B d f

@[inherit_doc AfterValue.Confined]
def AfterStmt.Confined (B : String → Prop) (d : Nat) (f : FrameId) : AfterStmt → Prop
  | .done => d = 0
  | .sequence rest next => Allows B f (Program.binds rest) ∧ next.Confined B d f
  | .leave scope next => next.Confined B d scope.frame
  | .leaveCall scope _ next => 0 < d ∧ next.Confined B (d - 1) scope.frame
  | .enterLoop loop next | .endRound loop next => Allows B f loop.body.binds ∧ next.Confined B d f

end

@[inherit_doc AfterValue.Confined]
def Control.Confined (B : String → Prop) (d : Nat) (f : FrameId) : Control → Prop
  | .execute stmt next => Allows B f stmt.binds ∧ next.Confined B d f
  | .evaluate _ next | .value _ next => next.Confined B d f
  | .ended _ next => next.Confined B d f
  | .stuck _ => True

/-- No global name without `B` is bound or will be. -/
structure State.Confined (B : String → Prop) (s : State) : Prop where
  heap : s.heap.Confined B
  control : s.control.Confined B s.depth s.scope.frame

@[inherit_doc State.Confined]
def Progress.Confined (B : String → Prop) : Progress → Prop
  | .moved s => s.Confined B
  | .waiting _ resume => ∀ reply, (resume reply).Confined B
  | .stopped _ h => h.Confined B

/-! ### Steps -/

namespace Heap.Confined

variable {s : State} {table : Distances} {k : AfterValue} {l : AfterStmt} {names : List String}

/-- A frame that is made is not the global one. -/
theorem allows (H : s.heap.Confined B) : Allows B s.heap.frames.size names :=
  fun h ↦ absurd h (Nat.ne_of_gt H.size_pos)

theorem round (H : s.heap.Confined B) (loop : Loop)
    (hloop : Allows B s.scope.frame loop.body.binds) (next : l.Confined B s.depth s.scope.frame) :
    (s.round loop l).Confined B := by
  obtain ⟨condition, step, body⟩ := loop
  cases condition with
  | none => exact ⟨H, hloop, hloop, next⟩
  | some condition => exact ⟨H, hloop, next⟩

/-- A variable that is allowed may be bound. -/
theorem bindName (H : s.heap.Confined B) {x : String} (hx : Allows B s.scope.frame [x]) (v : Value)
    (next : l.Confined B s.depth s.scope.frame) : (s.bindName x v l).Confined B :=
  ⟨H.setIn hx v, next⟩

/-- A class with an allowed name may be declared. -/
theorem declareClass (H : s.heap.Confined B) {x : String} (hx : Allows B s.scope.frame [x])
    (above : Option Class) (methods : List FunDecl)
    (next : l.Confined B s.depth s.scope.frame) : (s.declareClass x above methods l).Confined B :=
  ⟨(H.newClass s.scope x above methods).setIn hx _, next⟩

/-- A function with an allowed name may be declared. -/
theorem declareFunction (H : s.heap.Confined B) {f : FunDecl}
    (hf : Allows B s.scope.frame [f.name]) (next : l.Confined B s.depth s.scope.frame) :
    (s.declareFunction f l).Confined B := by
  have H' : (s.heap.newFunction ⟨f, s.scope, false⟩).2.Confined B := ⟨H.size_pos, H.bound⟩
  exact ⟨H'.setIn hf _, next⟩

/-- A statement begins with a step that binds what the statement may bind. -/
theorem execute (H : s.heap.Confined B) {stmt : Stmt}
    (hstmt : Allows B s.scope.frame stmt.binds) (next : l.Confined B s.depth s.scope.frame) :
    (s.execute stmt l).Confined B := by
  cases stmt with
  | expression | print => exact ⟨H, next⟩
  | varDecl _ x value =>
    cases value with
    | none => exact H.bindName hstmt _ next
    | some value => exact ⟨H, hstmt, next⟩
  | funDecl f => exact H.declareFunction hstmt next
  | classDecl _ x parent methods =>
    have h := H.bindName hstmt .nil next
    cases parent with
    | none => exact h.heap.declareClass (s := s.bindName x .nil l) hstmt none methods next
    | some parent => exact ⟨h.heap, hstmt, next⟩
  | block _ body => exact ⟨H.child s.scope [], H.allows, next⟩
  | conditional => exact ⟨H, hstmt, next⟩
  | whileLoop _ condition body => exact H.round ⟨some condition, none, body⟩ hstmt next
  | forLoop _ init condition step body =>
    have inner : s.enterScope.heap.Confined B := H.child s.scope []
    cases init with
    | none => exact inner.round ⟨condition, step, body⟩ H.allows next
    | some init => exact ⟨inner, H.allows, H.allows, next⟩
  | returns _ value => cases value <;> exact ⟨H, next⟩

/-- A variable that is written is a local one, or it is bound already. -/
theorem frameOf (H : s.heap.Confined B) {span : Span} {x : String}
    (hlocal : ∀ d, table.lookup span = some d → s.scope.ancestor? d ≠ some 0) {f : FrameId}
    (hf : s.frameOf table span x = .ok f) : Allows B f [x] := by
  rintro rfl y hy
  obtain rfl := List.mem_singleton.1 hy
  unfold State.frameOf at hf
  cases hd : table.lookup span with
  | some d =>
    -- a distance leads to a local frame, which allows every name
    rw [hd] at hf
    unfold Heap.ancestor at hf
    cases ha : s.scope.ancestor? d with
    | none => simp [ha, Except.mapError] at hf
    | some f =>
      simp only [ha, Option.elim, Except.mapError] at hf
      exact absurd (ha.trans (congrArg some (Except.ok.inj hf))) (hlocal d hd)
  | none =>
    -- without a distance only a name that is bound is found
    rw [hd] at hf
    cases hb : s.heap.binder? Heap.globals y with
    | none => simp [hb] at hf
    | some g =>
      simp only [hb] at hf
      obtain rfl := Except.ok.inj hf
      exact H.bound y (List.find?_some (p := fun f ↦ ((s.heap.frame f).get? y).isSome) hb)

/-- Wherever an expression ends, no global name has been bound but those it writes. -/
theorem of_answers (H : s.heap.Confined B) {span : Span} {s' : State}
    (h : s.Answers table span names k s')
    (hlocal : names ≠ [] → ∀ d, table.lookup span = some d → s.scope.ancestor? d ≠ some 0)
    (next : k.Confined B s.depth s.scope.frame) : s'.Confined B := by
  cases h with
  | gives => exact ⟨H, next⟩
  | faults | breaks => exact ⟨H, trivial⟩
  | writes hx hf => exact ⟨H.setIn (H.frameOf (hlocal (List.ne_nil_of_mem hx)) hf) _, next⟩
  | binds m this =>
    have H' := H.bindMethod m this
    exact ⟨⟨H'.size_pos, H'.bound⟩, next⟩

/-- An expression begins with a step that binds no global name. -/
theorem evaluate (H : s.heap.Confined B) {e : Expr}
    (hlocal : ∀ span side op x, e = .step span side op x →
      ∀ d, table.lookup span = some d → s.scope.ancestor? d ≠ some 0)
    (next : k.Confined B s.depth s.scope.frame) : (s.evaluate table e k).Confined B := by
  cases e with
  | var span x => exact H.of_answers (.read x) (absurd rfl) next
  | this span => exact H.of_answers (.read "this") (absurd rfl) next
  | step span side op x =>
    exact H.of_answers (.stepVariable side op x) (fun _ ↦ hlocal _ _ _ _ rfl) next
  | super span x => exact H.of_answers (.readSuper x) (absurd rfl) next
  | lambda f => exact ⟨⟨H.size_pos, H.bound⟩, next⟩
  | _ => exact ⟨H, next⟩

/-! ### Calls -/

/-- A call binds no global name. -/
theorem of_called (H : s.heap.Confined B) {span : Span} {callee : Value} {vs : List Value}
    {s' : State} (next : k.Confined B s.depth s.scope.frame)
    (h : s.Called span callee vs k s') : s'.Confined B := by
  have hprepared {k' : AfterValue} {c : Closure} {h : Heap} (hbody : s.Prepares k callee c h k') :
      h.Confined B ∧ k'.Confined B s.depth s.scope.frame := by
    cases hbody with
    | function => exact ⟨H, next⟩
    | @initializer c i =>
      have hobject : (s.heap.newObject c).2.Confined B := ⟨H.size_pos, H.bound⟩
      exact ⟨hobject.bindMethod i _, next⟩
  cases h with
  | gives => exact ⟨H, next⟩
  | unreadable | refused => exact ⟨H, trivial⟩
  | constructs => exact ⟨⟨H.size_pos, H.bound⟩, next⟩
  | tooDeep _ hbody => exact ⟨(hprepared hbody).1, trivial⟩
  | @enters _ c h _ hbody =>
    obtain ⟨H', next'⟩ := hprepared hbody
    exact ⟨H'.child c.scope _, allows (s := { s with heap := h }) H', Nat.succ_pos _, next'⟩

theorem call (H : s.heap.Confined B) (span : Span) (v : Value) (vs : List Value)
    (next : k.Confined B s.depth s.scope.frame) : (s.call span v vs k).Confined B := by
  have hcalled := s.call_called span v vs k
  have hreads := s.call_reads span v vs k
  generalize s.call span v vs k = p at hcalled hreads
  cases p with
  | moved s' => exact H.of_called next hcalled
  | waiting request resume => exact fun reply ↦ H.of_called next (hcalled reply)
  | stopped => exact hreads.elim

theorem nextArgument (H : s.heap.Confined B) (span : Span) (v : Value) (vs : List Value)
    (es : List Expr) (next : k.Confined B s.depth s.scope.frame) :
    (s.nextArgument span v vs es k).Confined B := by
  cases es with
  | nil => exact H.call span v _ next
  | cons e es => exact ⟨H, next⟩

/-- A call is left without a global name being bound. -/
theorem leaveCall (H : s.heap.Confined B) (scope : Chain) (c : Closure) (flow : Flow)
    (next : k.Confined B (s.depth - 1) scope.frame) : (s.leaveCall scope c flow k).Confined B := by
  unfold State.leaveCall
  dsimp only
  split
  · rcases s.heap.getAt c.scope "this" 0 with a | (- | this)
    · exact ⟨H, trivial⟩
    · exact ⟨H, trivial⟩
    · exact ⟨H, next⟩
  · cases flow <;> exact ⟨H, next⟩

/-! ### Pending work goes on -/

/-- What waits for a value goes on with a step that binds no global name but one that is allowed. -/
theorem accept (H : s.heap.Confined B) (v : Value)
    (hlocal : ∀ span x next, k = .assign span x next →
      ∀ d, table.lookup span = some d → s.scope.ancestor? d ≠ some 0)
    (next : k.Confined B s.depth s.scope.frame) : (s.accept table v k).Confined B := by
  cases k with
  | discard | returns => exact ⟨H, next⟩
  | print =>
    intro written
    cases written with
    | true => exact ⟨H, next⟩
    | false => exact ⟨H, trivial⟩
  | define x k => exact H.bindName next.1 v next.2
  | inherit span x methods k =>
    cases v with
    | cls above => exact H.declareClass next.1 (some above) methods next.2
    | _ => exact ⟨H, trivial⟩
  | choose yes no k =>
    obtain ⟨hbinds, next⟩ := next
    simp only [State.accept]
    split
    · exact ⟨H, fun h x hx ↦ hbinds h x (List.mem_append_left _ hx), next⟩
    · cases no with
      | none => exact ⟨H, next⟩
      | some no => exact ⟨H, fun h x hx ↦ hbinds h x (List.mem_append_right _ hx), next⟩
  | test loop k =>
    simp only [State.accept]
    split
    · exact ⟨H, next.1, next⟩
    · exact ⟨H, next.2⟩
  | round loop k => exact H.round _ next.1 next.2
  | assign span x k => exact H.of_answers (k := k) (.write x v v) (fun _ ↦ hlocal _ _ _ rfl) next
  | unary span op k => exact H.of_answers (k := k) (.giveOr table _) (absurd rfl) next
  | left span op e k =>
    simp only [State.accept]
    split <;> exact ⟨H, next⟩
  | right span op w k => exact H.of_answers (k := k) (.giveOr table _) (absurd rfl) next
  | callee span es k =>
    simp only [State.accept]
    cases v.callable with
    | error cause => exact ⟨H, trivial⟩
    | ok _ => exact H.nextArgument span v [] es next
  | argument span callee known rest k => exact H.nextArgument span callee _ rest next
  | property span x k => exact H.of_answers (k := k) (.readProperty table x v) (absurd rfl) next
  | target span x e k =>
    simp only [State.accept]
    rcases v.asObject x with cause | ⟨id, c⟩
    · exact ⟨H, trivial⟩
    · exact ⟨H, next⟩
  | field object x k => exact ⟨⟨H.size_pos, H.bound⟩, next⟩
  | construct object k => exact ⟨H, next⟩

/-- What waits for a statement goes on with a step that binds no global name. -/
theorem resume (H : s.heap.Confined B) (flow : Flow) (next : l.Confined B s.depth s.scope.frame) :
    (s.resume flow l).Confined B := by
  cases l with
  | done =>
    cases flow with
    | normal => exact H
    | returned v => exact ⟨H, trivial⟩
  | sequence rest l =>
    obtain ⟨hbinds, next⟩ := next
    cases rest with
    | nil => cases flow <;> exact ⟨H, next⟩
    | cons stmt rest =>
      cases flow with
      | normal =>
        refine ⟨H, fun h x hx ↦ hbinds h x ?_, fun h x hx ↦ hbinds h x ?_, next⟩
        · exact List.mem_append_left _ hx
        · exact List.mem_append_right _ hx
      | returned v => exact ⟨H, next⟩
  | leave scope l => exact ⟨H, next⟩
  | leaveCall scope c k => exact H.leaveCall scope c flow next.2
  | enterLoop loop l => exact H.round _ next.1 next.2
  | endRound loop l =>
    obtain ⟨condition, step, body⟩ := loop
    cases flow with
    | returned v => exact ⟨H, next.2⟩
    | normal =>
      cases step with
      | none => exact H.round _ next.1 next.2
      | some step => exact ⟨H, next⟩

end Heap.Confined

/-- A step binds no global name without `B`, unless it writes to the global frame as to a local
one. -/
theorem State.Confined.step {s : State} (h : s.Confined B) {table : Distances}
    (hlocal : ∀ span x, s.reference? = some (span, x) →
      ∀ d, table.lookup span = some d → s.scope.ancestor? d ≠ some 0) :
    (s.step table).Confined B := by
  obtain ⟨H, hcontrol⟩ := h
  unfold State.step
  unfold State.reference? at hlocal
  generalize s.control = c at hcontrol hlocal
  cases c with
  | execute stmt l => exact H.execute hcontrol.1 hcontrol.2
  | evaluate e k =>
    refine H.evaluate (fun span side op x he ↦ ?_) hcontrol
    subst he
    exact hlocal span x rfl
  | value v k =>
    refine H.accept v (fun span x next hk ↦ ?_) hcontrol
    subst hk
    exact hlocal span x rfl
  | ended flow l => exact H.resume flow hcontrol
  | stuck t => exact H

end LoxLang
