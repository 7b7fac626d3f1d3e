import LoxLang.Proofs.Layers
import LoxLang.Session

/-!
# Runs

What can be said of the runs of the machine without any other machine. A run is a sequence of steps
in which the outside replies to requests as it likes (`State.Reaches`), and a session is a sequence
of sources, each of which may be refused, run for any number of steps or stopped
(`Session.History`).

Two records are kept along a run. One says for each frame what opened the scope that it was made
for (`State.opened`). The other says which variables are still without a first value: those whose
initializers are being evaluated (`State.initializing`), and those whose initializers an earlier
source of the session never finished.
-/

namespace LoxLang

/-! ### First values -/

mutual

/-- The variables whose first values are being computed, where the present frame is `f`. -/
def AfterValue.initializing (f : FrameId) : AfterValue → List (FrameId × String)
  | .define x next => (f, x) :: next.initializing f
  | .discard next | .print _ next | .inherit _ _ _ next | .choose _ _ next | .test _ next
  | .round _ next | .returns next => next.initializing f
  | .assign _ _ next | .unary _ _ next | .left _ _ _ next | .right _ _ _ next | .callee _ _ next
  | .argument _ _ _ _ next | .property _ _ next | .target _ _ _ next | .field _ _ next
  | .construct _ next => next.initializing f

@[inherit_doc AfterValue.initializing]
def AfterStmt.initializing (f : FrameId) : AfterStmt → List (FrameId × String)
  | .done => []
  | .sequence _ next | .enterLoop _ next | .endRound _ next => next.initializing f
  | .leave scope next => next.initializing scope.frame
  | .leaveCall scope _ next => next.initializing scope.frame

end

@[inherit_doc AfterValue.initializing]
def Control.initializing (f : FrameId) : Control → List (FrameId × String)
  | .execute _ next | .ended _ next => next.initializing f
  | .evaluate _ next | .value _ next => next.initializing f
  | .stuck _ => []

/-! ### Frames -/

/-- What is opened when a value is called. A class calls its initializer on a new instance. -/
def Value.opens : Value → List Place
  | .function _ c => [.function c.function.span]
  | .cls c =>
    c.initializer?.elim [] fun i ↦ [.receiver i.function.span, .function i.function.span]
  | _ => []

/-- The program goes on by itself, or when what it reads is there. -/
def Progress.Reads : Progress → Prop
  | .moved _ | .waiting .readLine _ | .waiting .readClock _ => True
  | .waiting (.writeLine _) _ | .stopped .. => False

namespace State

/-- The variables whose first values are being computed, each with its frame. -/
def initializing (s : State) : List (FrameId × String) := s.control.initializing s.scope.frame

theorem initializing_eq {s : State} {c : Control} (h : s.control = c) :
    s.initializing = c.initializing s.scope.frame := by
  rw [initializing, h]

/-- The scopes that may be opened by a step, in order. A method that was bound is what the step
results in. -/
def opens (s s' : State) : List Place :=
  match s.control with
  | .execute (.block span _) _ => [.block span]
  | .execute (.forLoop span _ _ _ _) _ => [.loop span]
  | .value _ (.inherit span _ _ _) => [.superclass span]
  | .value callee (.callee _ [] _) => callee.opens
  | .value _ (.argument _ callee _ [] _) => callee.opens
  | .value _ (.property _ _ _) | .evaluate (.super _ _) _ =>
    match s'.control with
    | .value (.function _ c) _ => [.receiver c.function.span]
    | _ => []
  | _ => []

/-- The scopes that are opened by a step: as many as it makes frames. -/
def opened (s s' : State) : List Place :=
  (s.opens s').take (s'.heap.frames.size - s.heap.frames.size)

/-! ### Steps -/

/-- The reference whose variable the next step reads or writes. -/
def reference? (s : State) : Option (Span × String) :=
  match s.control with
  | .evaluate (.var span x) _ | .evaluate (.step span _ _ x) _ | .value _ (.assign span x _) =>
    some (span, x)
  | .evaluate (.this span) _ => some (span, "this")
  | .evaluate (.super span _) _ => some (span, "super")
  | _ => none

/-- A step depends on the distances only through that of the reference it reads or writes. -/
theorem step_congr {s : State} {table table' : Distances}
    (h : ∀ span x, s.reference? = some (span, x) → table.lookup span = table'.lookup span) :
    s.step table = s.step table' := by
  unfold reference? at h
  unfold step
  cases hs : s.control with
  | evaluate e next =>
    rw [hs] at h
    cases e with
    | var span x => simp only [evaluate, read, lookup, frameOf, h span x rfl]
    | step span side op x =>
      simp only [evaluate, stepVariable, write, lookup, frameOf, h span x rfl]
    | this span => simp only [evaluate, read, lookup, frameOf, h span "this" rfl]
    | super span x => simp only [evaluate, readSuper, h span "super" rfl]
    | _ => rfl
  | value v next =>
    rw [hs] at h
    cases next with
    | assign span x next => simp only [accept, write, frameOf, h span x rfl]
    | _ => rfl
  | _ => rfl

/-- The next step reads a local variable, which has no value in its frame. -/
def ReadsEmpty (table : Distances) (s : State) (f : FrameId) (x : String) : Prop :=
  ∃ span next d,
    (s.control = .evaluate (.var span x) next ∨
      ∃ side op, s.control = .evaluate (.step span side op x) next) ∧
    table.lookup span = some d ∧ s.scope.ancestor? d = some f ∧ (s.heap.frame f).get? x = none

/-- The state has stopped before the end of the program. -/
def IsStuck (s : State) : Prop := ∃ t, s.control = .stuck t

theorem call_reads (s : State) (span : Span) (callee : Value) (arguments : List Value)
    (next : AfterValue) : (s.call span callee arguments next).Reads := by
  unfold call
  cases callee.accepts arguments.length with
  | error cause => trivial
  | ok _ =>
    cases callee with
    | native n => cases n <;> trivial
    | _ => trivial

theorem nextArgument_reads (s : State) (span : Span) (callee : Value) (known : List Value)
    (rest : List Expr) (next : AfterValue) :
    (s.nextArgument span callee known rest next).Reads := by
  cases rest with
  | nil => exact s.call_reads ..
  | cons e rest => trivial

/-- Of the work that waits for a value, only a print writes. -/
theorem accept_reads {s : State} {table : Distances} {v : Value} {pending : AfterValue}
    (hprint : ∀ span next, pending ≠ .print span next) : (s.accept table v pending).Reads := by
  cases pending with
  | print span next => exact absurd rfl (hprint span next)
  | callee span arguments next =>
    unfold accept
    cases v.callable with
    | error cause => trivial
    | ok _ => exact s.nextArgument_reads ..
  | argument span callee known rest next => exact s.nextArgument_reads ..
  | inherit | choose | test | left | target =>
    unfold accept
    dsimp only
    repeat' split
    all_goals trivial
  | _ => trivial

/-- After a statement there is something left to do, except at the end of the program. -/
theorem resume_reads {s : State} {flow : Flow} {pending : AfterStmt}
    (hdone : ¬ (flow = .normal ∧ pending = .done)) : (s.resume flow pending).Reads := by
  cases pending with
  | done =>
    cases flow with
    | normal => exact absurd ⟨rfl, rfl⟩ hdone
    | returned v => trivial
  | sequence rest next => cases flow <;> cases rest <;> trivial
  | endRound loop next =>
    obtain ⟨condition, step, body⟩ := loop
    cases flow <;> cases step <;> trivial
  | leave | leaveCall | enterLoop => trivial

/-- Only a print writes, and a program stops only when it is done or stuck. -/
theorem step_reads_or (s : State) (table : Distances) :
    (s.step table).Reads ∨ (∃ v span next, s.control = .value v (.print span next)) ∨
      s.control = .ended .normal .done ∨ s.IsStuck := by
  unfold step
  cases hcontrol : s.control with
  | execute | evaluate => exact .inl trivial
  | value v pending =>
    by_cases hprint : ∃ span next, pending = .print span next
    · obtain ⟨span, next, rfl⟩ := hprint
      exact .inr (.inl ⟨v, span, next, rfl⟩)
    · exact .inl (accept_reads fun span next h ↦ hprint ⟨span, next, h⟩)
  | ended flow pending =>
    by_cases hdone : flow = .normal ∧ pending = .done
    · obtain ⟨rfl, rfl⟩ := hdone
      exact .inr (.inr (.inl rfl))
    · exact .inl (resume_reads hdone)
  | stuck t => exact .inr (.inr (.inr ⟨t, hcontrol⟩))

/-- A program that stops is done, or was stuck before, and leaves the heap as it is. -/
theorem of_step_eq_stopped {s : State} {table : Distances} {ending : Ending} {h : Heap}
    (hs : s.step table = .stopped ending h) :
    h = s.heap ∧ ∀ t, ending = .stuck t → s.control = .stuck t := by
  rcases s.step_reads_or table with hreads | ⟨v, span, next, hcontrol⟩ | hcontrol | ⟨t, hcontrol⟩
  · rw [hs] at hreads
    exact hreads.elim
  · rw [step, hcontrol] at hs
    cases hs
  · rw [step, hcontrol] at hs
    cases hs
    exact ⟨rfl, fun t ht ↦ by cases ht⟩
  · rw [step, hcontrol] at hs
    cases hs
    exact ⟨rfl, fun t ht ↦ by cases ht; exact hcontrol⟩

/-- One step, whatever is replied if it asks something of the outside. -/
inductive Steps (table : Distances) (s s' : State) : Prop
  | moved (h : s.step table = .moved s')
  | replied {request : Request} {resume : request.Reply → State} {reply : request.Reply}
      (h : s.step table = .waiting request resume) (hs' : s' = resume reply)

theorem Steps.not_isStuck {table : Distances} {s s' : State} (h : s.Steps table s') :
    ¬ s.IsStuck := by
  rintro ⟨t, ht⟩
  cases h with
  | moved h =>
    rw [step, ht] at h
    cases h
  | replied h =>
    rw [step, ht] at h
    cases h

section Runs

variable {table : Distances} {s s' : State} {request : Request} {resume : request.Reply → State}

theorem run_of_moved (h : s.step table = .moved s') (n : Nat) (w : World) :
    s.run table (n + 1) w = s'.run table n w := by
  rw [run, h]

theorem run_of_waiting (h : s.step table = .waiting request resume) (n : Nat) (w : World) :
    s.run table (n + 1) w = (resume (w.answer request).1).run table n (w.answer request).2 := by
  rw [run, h]

/-- A state that is stuck changes nothing any more. -/
theorem run_of_stuck {t : Trouble} (hs : s.control = .stuck t) (n : Nat) (w : World) :
    (s.run table n w).2.1 = s.heap ∧ (s.run table n w).2.2 ≠ some .done := by
  cases n with
  | zero => exact ⟨rfl, nofun⟩
  | succ n =>
    unfold run step
    rw [hs]
    exact ⟨rfl, nofun⟩

end Runs

/-- Any number of steps, with what opened the scope of each frame before and after them. -/
inductive Reaches (table : Distances) (s : State) (places : List Place) :
    State → List Place → Prop
  | refl : Reaches table s places s places
  | step {s' s'' : State} {places' : List Place} (h : Reaches table s places s' places')
      (hstep : s'.Steps table s'') : Reaches table s places s'' (places' ++ s'.opened s'')

end State

/-! ### Sessions -/

/-- What a session can come to: the references of the programs that it accepted, what opened the
scope of each frame but the first, and the variables whose first values were still being computed
when a program was left. -/
inductive Session.History :
    Session → List Reference → List Place → List (FrameId × String) → Prop
  | new : History .new [] [] []
  | refused {s s' : Session} {known : List Reference} {places : List Place}
      {left : List (FrameId × String)} {text : String} {faults : List Fault}
      (h : History s known places left) (hload : s.load text = (s', .error faults)) :
      History s' known places left
  /-- The program was run for some steps, perhaps to its end. -/
  | ran {s s' : Session} {known : List Reference} {places places' : List Place}
      {left : List (FrameId × String)} {text : String} {p : Program} {t : State}
      (h : History s known places left) (hload : s.load text = (s', .ok p))
      (hreaches : (State.start s'.heap p).Reaches s'.distances places t places')
      (hstuck : ¬ t.IsStuck) :
      History { s' with heap := t.heap } (p.references ++ known) places' (t.initializing ++ left)
  /-- The program was stopped by a fault or an anomaly. -/
  | stopped {s s' : Session} {known : List Reference} {places places' : List Place}
      {left : List (FrameId × String)} {text : String} {p : Program} {t t' : State}
      (h : History s known places left) (hload : s.load text = (s', .ok p))
      (hreaches : (State.start s'.heap p).Reaches s'.distances places t places')
      (hstep : t.Steps s'.distances t') (hstuck : t'.IsStuck) :
      History { s' with heap := t'.heap } (p.references ++ known) (places' ++ t.opened t')
        (t.initializing ++ left)

end LoxLang
