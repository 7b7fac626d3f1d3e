import LoxLang.Proofs.Direct
import LoxLang.Proofs.Sessions

/-!
# Recursion and machine

A program that is executed by recursion comes to what the machine comes to. If an action finishes,
the machine goes from the state that begins it to the state that takes its result; and if `n` does
not suffice for the action, then `n` steps do not suffice for the machine (`Follows`).
-/

namespace LoxLang

/-! ### Runs from a step on -/

/-- Runs on after a step. -/
def Progress.run (table : Distances) (n : Nat) (w : World) :
    Progress → World × Heap × Option Ending
  | .moved s => s.run table n w
  | .waiting request resume => (resume (w.answer request).1).run table n (w.answer request).2
  | .stopped ending heap => (w, heap, some ending)

theorem State.run_succ (s : State) (table : Distances) (n : Nat) (w : World) :
    s.run table (n + 1) w = (s.step table).run table n w := by
  rw [State.run]
  cases s.step table <;> rfl

/-- After its end a run does not change. -/
theorem State.run_add {s : State} {table : Distances} {n : Nat} {w : World}
    (h : (s.run table n w).2.2 ≠ none) (k : Nat) : s.run table (n + k) w = s.run table n w := by
  induction n generalizing s w with
  | zero => exact absurd rfl h
  | succ n ih =>
    rw [Nat.succ_add, run_succ, run_succ]
    rw [run_succ] at h
    cases hstep : s.step table with
    | moved s' =>
      rw [hstep] at h
      exact ih h
    | waiting request resume =>
      rw [hstep] at h
      exact ih h
    | stopped ending heap => rfl

namespace Progress

variable {table : Distances} {g g' g'' : Progress} {w w' w'' : World}

/-- After its end a run does not change, wherever it goes on from. -/
theorem run_add {n : Nat} (h : (g.run table n w).2.2 ≠ none) (k : Nat) :
    g.run table (n + k) w = g.run table n w := by
  cases g with
  | moved s => exact State.run_add h k
  | waiting request resume => exact State.run_add h k
  | stopped ending heap => rfl

/-- A run that is unfinished was so before. -/
theorem unfinished_of_add {n k : Nat} (h : (g.run table (n + k) w).2.2 = none) :
    (g.run table n w).2.2 = none := by
  cases hrun : (g.run table n w).2.2 with
  | none => rfl
  | some ending =>
    have hsame : g.run table (n + k) w = g.run table n w := run_add (by rw [hrun]; nofun) k
    rw [hsame, hrun] at h
    exact h

/-- The machine gets from here to there, where the world answers what it asks. -/
inductive Leads (table : Distances) : Progress → World → Progress → World → Prop
  | refl (g : Progress) (w : World) : Leads table g w g w
  | on {s : State} {g' : Progress} {w w' : World} (h : Leads table (s.step table) w g' w') :
      Leads table (.moved s) w g' w'
  /-- What is asked is answered without a step. -/
  | reply {request : Request} {resume : request.Reply → State} {g' : Progress} {w w' : World}
      (h : Leads table (.moved (resume (w.answer request).1)) (w.answer request).2 g' w') :
      Leads table (.waiting request resume) w g' w'

theorem Leads.trans (h : g.Leads table w g' w') (h' : g'.Leads table w' g'' w'') :
    g.Leads table w g'' w'' := by
  induction h with
  | refl => exact h'
  | on _ ih => exact .on (ih h')
  | reply _ ih => exact .reply (ih h')

theorem Leads.step (s : State) (w : World) : (moved s).Leads table w (s.step table) w :=
  .on (.refl _ _)

/-- The machine gets from a request to where the reply resumes it. -/
theorem Leads.answer (request : Request) (resume : request.Reply → State) (w : World) :
    (waiting request resume).Leads table w (.moved (resume (w.answer request).1))
      (w.answer request).2 :=
  .reply (.refl _ _)

/-- A run that goes on from here comes to what a run that goes on from there comes to. -/
theorem Leads.run (h : g.Leads table w g' w') :
    ∃ m, ∀ k, g.run table (m + k) w = g'.run table k w' := by
  induction h with
  | refl => exact ⟨0, fun k ↦ by rw [Nat.zero_add]⟩
  | @on s _ w _ _ ih =>
    obtain ⟨m, hm⟩ := ih
    refine ⟨m + 1, fun k ↦ ?_⟩
    rw [Nat.add_right_comm]
    exact (s.run_succ table (m + k) w).trans (hm k)
  | reply _ ih =>
    obtain ⟨m, hm⟩ := ih
    exact ⟨m, hm⟩

/-- A way to an unfinished run is unfinished. -/
theorem Leads.unfinished (h : g.Leads table w g' w') {n : Nat}
    (hn : (g'.run table n w').2.2 = none) : (g.run table n w).2.2 = none := by
  obtain ⟨m, hm⟩ := h.run
  have h : (g.run table (n + m) w).2.2 = none := by rw [Nat.add_comm, hm, hn]
  exact unfinished_of_add h

end Progress

/-- If the program of a source comes to an end, this is how the source comes out, with enough
steps. -/
theorem Session.run_of_leads {s s' : Session} {text : String} {p : Program}
    (hload : s.load text = (s', .ok p)) {w w' : World} {ending : Ending} {heap : Heap}
    (h : (Progress.moved (.start s'.heap p)).Leads s'.distances w (.stopped ending heap) w') :
    ∃ m, ∀ k, s.run (m + k) w text = (verdict (some ending), w', { s' with heap }) := by
  obtain ⟨m, hm⟩ := h.run
  refine ⟨m, fun k ↦ ?_⟩
  have hrun : (State.start s'.heap p).run s'.distances (m + k) w = (w', heap, some ending) := hm k
  rw [run_of_load hload, hrun]

namespace Direct

open LoxLang.Direct.Action
open Progress (Leads)

/-- The state of the machine that is about to do this. -/
def Store.at (σ : Store) (c : Control) : State :=
  { control := c, scope := σ.scope, depth := σ.depth, heap := σ.heap }

/-- A result is come to here, and so is trouble. -/
def Store.come {α : Type} (σ : Store) : Except Trouble α → Exit α
  | .ok a => .finished (.ok a) σ
  | .error (.fault f) => .finished (.error f) σ
  | .error (.anomaly a) => .broken a σ

/-- After trouble nothing more of an action is done. -/
theorem bind_of_trouble {α β : Type} {p : Action α} {σ σ' : Store} {t : Trouble}
    (h : p σ = σ'.come (.error t)) (f : α → Action β) : (p >>= f) σ = σ'.come (.error t) := by
  change Action.bind p f σ = _
  rw [Action.bind, h]
  cases t <;> rfl

/-- The machine comes from `g` to what an action came to: with a result to what `K` makes of it,
with trouble to its end. If the action was unfinished then so is the machine after `n` steps. -/
def Exit.Follows {α : Type} (table : Distances) (n : Nat) (g : Progress) (w : World)
    (K : α → Store → Progress) : Exit α → Prop
  | .finished (.ok a) σ' => g.Leads table w (K a σ') σ'.world
  | .finished (.error f) σ' => g.Leads table w (.stopped (.stuck (.fault f)) σ'.heap) σ'.world
  | .broken a σ' => g.Leads table w (.stopped (.stuck (.anomaly a)) σ'.heap) σ'.world
  | .unfinished => (g.run table n w).2.2 = none

@[inherit_doc Exit.Follows]
def Follows {α : Type} (table : Distances) (n : Nat) (g : Progress) (p : Action α) (σ : Store)
    (K : α → Store → Progress) : Prop :=
  (p σ).Follows table n g σ.world K

namespace Exit.Follows

variable {α β : Type} {table : Distances} {n : Nat} {g g' : Progress} {w w' : World}
  {x : Exit α} {K K' : α → Store → Progress}

/-- The machine may have come here from elsewhere. -/
theorem lead (h : x.Follows table n g' w' K) (hg : g.Leads table w g' w') :
    x.Follows table n g w K := by
  cases x with
  | finished result σ' => cases result <;> exact hg.trans h
  | broken a σ' => exact hg.trans h
  | unfinished => exact hg.unfinished h

/-- What is unfinished after some steps was so after fewer. -/
theorem mono {m : Nat} (h : x.Follows table n g w K) (hm : m ≤ n) :
    x.Follows table m g w K := by
  cases x with
  | finished result σ' => cases result <;> exact h
  | broken a σ' => exact h
  | unfinished =>
    obtain ⟨k, rfl⟩ := Nat.exists_eq_add_of_le hm
    exact Progress.unfinished_of_add h

/-- What is put back concerns what takes the result, and nothing that the machine comes to
without one. -/
theorem afterwards {f : Store → Store} (hf : ∀ σ', (f σ').heap = σ'.heap)
    (hworld : ∀ σ', (f σ').world = σ'.world) (h : x.Follows table n g w K')
    (hK : ∀ a σ', (K' a σ').Leads table σ'.world (K a (f σ')) σ'.world) :
    (x.afterwards f).Follows table n g w K := by
  cases x with
  | finished result σ' =>
    cases result with
    | ok a =>
      change g.Leads table w (K a (f σ')) (f σ').world
      rw [hworld]
      exact h.trans (hK a σ')
    | error fault =>
      change g.Leads table w (.stopped (.stuck (.fault fault)) (f σ').heap) (f σ').world
      rw [hf, hworld]
      exact h
  | broken a σ' => exact h
  | unfinished => exact h

end Exit.Follows

namespace Follows

variable {α β : Type} {table : Distances} {n : Nat} {g g' : Progress} {p : Action α}
  {f : α → Action β} {σ : Store} {K K' : α → Store → Progress} {L : β → Store → Progress}

/-! ### Actions -/

/-- Where nothing is done, the machine has to come to what is made of the result. -/
theorem pure (a : α) (h : g.Leads table σ.world (K a σ) σ.world) :
    Follows table n g (pure a) σ K :=
  h

/-- The machine may have come here from elsewhere. -/
theorem lead (hg : g.Leads table σ.world g' σ.world) (h : Follows table n g' p σ K) :
    Follows table n g p σ K :=
  Exit.Follows.lead h hg

/-- A step counts. -/
theorem step {s : State} (h : Follows table n (s.step table) p σ K) :
    Follows table (n + 1) (.moved s) p σ K := by
  have hs : (Progress.moved s).Leads table σ.world (s.step table) σ.world := .step s σ.world
  unfold Follows at h ⊢
  cases hx : p σ with
  | finished result σ' =>
    rw [hx] at h
    cases result <;> exact hs.trans h
  | broken a σ' =>
    rw [hx] at h
    exact hs.trans h
  | unfinished =>
    rw [hx] at h
    have hrun : (s.run table (n + 1) σ.world).2.2 = none := by
      rw [s.run_succ]
      exact h
    exact hrun

theorem mono {m : Nat} (h : Follows table n g p σ K) (hm : m ≤ n) : Follows table m g p σ K :=
  Exit.Follows.mono h hm

/-- The machine follows one action after the other. -/
theorem bind (hp : Follows table n g p σ K)
    (hf : ∀ a σ', Follows table n (K a σ') (f a) σ' L) : Follows table n g (p >>= f) σ L := by
  change (Action.bind p f σ).Follows table n g σ.world L
  unfold Follows at hp
  unfold Action.bind
  cases hx : p σ with
  | finished result σ' =>
    rw [hx] at hp
    cases result with
    | ok a => exact Exit.Follows.lead (hf a σ') hp
    | error f => exact hp
  | broken a σ' =>
    rw [hx] at hp
    exact hp
  | unfinished =>
    rw [hx] at hp
    exact hp

/-- An action that only looks at the state takes no steps of the machine. -/
theorem of_bind_ok {a : α} {σ' : Store} {L : β → Store → Progress}
    (hp : p σ = .finished (.ok a) σ') (hworld : σ'.world = σ.world)
    (h : Follows table n g (f a) σ' L) : Follows table n g (p >>= f) σ L := by
  unfold Follows at h ⊢
  rw [bind_of_ok hp, ← hworld]
  exact h

/-- The machine has made the change when it goes on with the result. -/
theorem change (r : Store → α × Heap)
    (h : g.Leads table σ.world (K (r σ).1 { σ with heap := (r σ).2 }) σ.world) :
    Follows table n g (change r) σ K :=
  h

/-- What is done with the reply is what the machine resumes with. -/
theorem ask_bind {request : Request} {resume : request.Reply → State}
    {f : request.Reply → Action β}
    (h : ∀ reply w, Follows table n (.moved (resume reply)) (f reply) { σ with world := w } L) :
    Follows table n (.waiting request resume) (ask request >>= f) σ L := by
  have hrun : (ask request >>= f) σ = f (σ.world.answer request).1
      { σ with world := (σ.world.answer request).2 } := bind_of_ok rfl f
  unfold Follows
  rw [hrun]
  exact Exit.Follows.lead (h _ _) (.answer request resume σ.world)

/-- What is done in another scope is followed there, and the scope is put back at the end. -/
theorem within {scope : Chain} (h : Follows table n g p { σ with scope } K')
    (hK : ∀ a σ', (K' a σ').Leads table σ'.world (K a { σ' with scope := σ.scope }) σ'.world) :
    Follows table n g (within scope p) σ K :=
  Exit.Follows.afterwards (fun _ ↦ rfl) (fun _ ↦ rfl) h hK

/-- What is done in a call is followed one call deeper, as long as that is within the limit. -/
theorem deeper {span : Span} (hlimit : ¬ callLimit ≤ σ.depth)
    (h : Follows table n g p { σ with depth := σ.depth + 1 } K')
    (hK : ∀ a σ',
      (K' a σ').Leads table σ'.world (K a { σ' with depth := σ'.depth - 1 }) σ'.world) :
    Follows table n g (deeper span p) σ K := by
  unfold Follows Action.deeper
  rw [if_neg hlimit]
  exact Exit.Follows.afterwards (fun _ ↦ rfl) (fun _ ↦ rfl) h hK

/-- The trouble of an action is the trouble that the machine is stuck on. -/
theorem trouble {t : Trouble} {s : State} (hp : p σ = σ.come (.error t))
    (hs : s.control = .stuck t) (hheap : s.heap = σ.heap) : Follows table n (.moved s) p σ K := by
  have hstep : s.step table = .stopped (.stuck t) σ.heap := by
    unfold State.step
    rw [hs, hheap]
  have hleads : (Progress.moved s).Leads table σ.world (s.step table) σ.world :=
    .step s σ.world
  rw [hstep] at hleads
  unfold Follows
  rw [hp]
  cases t <;> exact hleads

/-- The machine gets stuck on the fault of an action. -/
theorem fault {f : Fault} (c : Control) (hp : p σ = .finished (.error f) σ) :
    Follows table n (.moved { σ.at c with control := .stuck (.fault f) }) p σ K :=
  trouble (t := .fault f) hp rfl rfl

/-- The machine gets stuck on the anomaly of an action. -/
theorem anomaly {a : Anomaly} (c : Control) (hp : p σ = .broken a σ) :
    Follows table n (.moved { σ.at c with control := .stuck (.anomaly a) }) p σ K :=
  trouble (t := .anomaly a) hp rfl rfl

end Follows

/-! ### Variables and methods -/

/-- The machine goes on with the value of an expression. -/
abbrev gives (next : AfterValue) (v : Value) (σ : Store) : Progress :=
  .moved (σ.at (.value v next))

/-- The machine goes on after a statement. -/
abbrev ends (next : AfterStmt) (flow : Flow) (σ : Store) : Progress :=
  .moved (σ.at (.ended flow next))

section Leaves

variable {table : Distances} {n : Nat} {σ : Store} {c : Control} {next : AfterValue}

/-- A variable at a distance is read from the heap of the store. -/
theorem valueAt_eq (name : String) (depth : Nat) (σ : Store) :
    valueAt name depth σ = σ.come ((σ.heap.getAt σ.scope name depth).mapError .anomaly) := by
  unfold valueAt
  refine (bind_of_ok rfl _).trans ?_
  simp only
  cases σ.heap.getAt σ.scope name depth <;> rfl

/-- A variable is looked up as the machine looks it up. -/
theorem lookup_eq (c : Control) (table : Distances) (span : Span) (name : String) (σ : Store) :
    lookup table span name σ = σ.come ((σ.at c).lookup table span name) := by
  unfold lookup State.lookup State.frameOf
  cases table.lookup span with
  | some depth =>
    have hvalue := valueAt_eq name depth σ
    unfold Heap.getAt at hvalue
    simp only [Store.at]
    cases hancestor : Heap.ancestor σ.scope depth with
    | error a =>
      rw [hancestor] at hvalue
      exact bind_of_trouble (t := .anomaly a) hvalue _
    | ok frame =>
      rw [hancestor] at hvalue
      refine (bind_of_ok hvalue _).trans ?_
      simp only [Except.mapError]
      cases (σ.heap.frame frame).get? name <;> rfl
  | none =>
    refine (bind_of_ok rfl _).trans ?_
    simp only [Heap.get?, Store.at]
    cases hbinder : σ.heap.binder? Heap.globals name with
    | none => rfl
    | some frame =>
      have hbound := List.find?_some hbinder
      obtain ⟨v, hv⟩ := Option.isSome_iff_exists.1 hbound
      simp only [Option.bind_some, hv]
      rfl

/-- A variable is assigned in the frame in which the machine assigns it. -/
theorem assign_eq (c : Control) (table : Distances) (span : Span) (name : String) (v : Value)
    (σ : Store) : assign table span name v σ =
      match (σ.at c).frameOf table span name with
      | .ok frame => .finished (.ok ()) { σ with heap := σ.heap.setIn frame name v }
      | .error t => σ.come (.error t) := by
  unfold assign State.frameOf
  cases table.lookup span with
  | some depth =>
    refine (bind_of_ok rfl _).trans ?_
    simp only [Heap.assignAt, Store.at]
    cases Heap.ancestor σ.scope depth <;> rfl
  | none =>
    refine (bind_of_ok rfl _).trans ?_
    simp only [Heap.assign?, Store.at]
    cases σ.heap.binder? Heap.globals name <;> rfl

/-- The machine follows the reading of a variable. -/
theorem follows_lookup (span : Span) (name : String) : Follows table n
    (.moved ((σ.at c).read table span name next)) (lookup table span name) σ (gives next) := by
  unfold State.read
  have heq := lookup_eq c table span name σ
  cases h : (σ.at c).lookup table span name with
  | ok v =>
    rw [h] at heq
    unfold Follows
    rw [heq]
    exact .refl _ _
  | error t =>
    rw [h] at heq
    exact .trouble heq rfl rfl

/-- The machine follows an assignment to a variable. -/
theorem follows_assign (span : Span) (name : String) (v result : Value) : Follows table n
    (.moved ((σ.at c).write table span name v result next)) (assign table span name v) σ
    fun _ σ' ↦ gives next result σ' := by
  unfold State.write
  have heq := assign_eq c table span name v σ
  cases h : (σ.at c).frameOf table span name with
  | ok frame =>
    rw [h] at heq
    unfold Follows
    rw [heq]
    exact .refl _ _
  | error t =>
    rw [h] at heq
    exact .trouble heq rfl rfl

/-- The machine follows a result, which may be a fault. -/
theorem follows_orFault {r : Except Cause Value} (span : Span) : Follows table n
    (.moved ((σ.at c).giveOr span r next)) (orFault span r) σ (gives next) := by
  cases r with
  | ok v => exact .pure v (.refl _ _)
  | error cause => exact .fault c rfl

/-- The machine follows the stepping of a variable. -/
theorem follows_stepVariable (span : Span) (side : Side) (op : StepOp) (name : String) :
    Follows table n (.moved ((σ.at c).stepVariable table span side op name next))
      (stepVariable table span side op name) σ (gives next) := by
  unfold State.stepVariable stepVariable
  have heq := lookup_eq c table span name σ
  cases h : (σ.at c).lookup table span name with
  | error t =>
    rw [h] at heq
    exact .trouble (bind_of_trouble heq _) rfl rfl
  | ok old =>
    rw [h] at heq
    refine .of_bind_ok heq rfl ?_
    simp only
    cases old.stepped op with
    | error cause => exact .fault c rfl
    | ok new =>
      refine .of_bind_ok rfl rfl (.bind (follows_assign span name new _) fun _ σ' ↦ ?_)
      exact .pure _ (.refl _ _)

theorem follows_newMethod (method : Closure) (this : Value) : Follows table n
    (.moved ((σ.at c).giveMethod method this next)) (newMethod method this) σ (gives next) :=
  .of_bind_ok rfl rfl (.change _ (.refl _ _))

/-- A method of this superclass. -/
theorem follows_methodAbove (span : Span) (name : String) (above : Class) (inner : Nat) :
    Follows table n
      (.moved (match (σ.at c).heap.getAt (σ.at c).scope "this" inner with
        | .error a => (σ.at c).anomaly a
        | .ok (some (.object id cls)) =>
          match above.method? name with
          | none => (σ.at c).fault span (.noSuchAttribute above.name name)
          | some method => (σ.at c).giveMethod method (.object id cls) next
        | .ok _ => (σ.at c).anomaly .thisNotBesideSuper))
      (do
        match ← valueAt "this" inner with
        | some (.object id c) =>
          match above.method? name with
          | none => Action.fault ⟨.noSuchAttribute above.name name, span⟩
          | some method => newMethod method (.object id c)
        | _ => anomaly .thisNotBesideSuper) σ (gives next) := by
  have hthis := valueAt_eq "this" inner σ
  simp only [Store.at]
  cases h : σ.heap.getAt σ.scope "this" inner with
  | error a =>
    rw [h] at hthis
    exact .trouble (bind_of_trouble (t := .anomaly a) hthis _) rfl rfl
  | ok this =>
    rw [h] at hthis
    refine .of_bind_ok hthis rfl ?_
    rcases this with - | (- | - | - | - | - | - | - | ⟨id, cls⟩)
    case some.object =>
      simp only
      cases above.method? name with
      | none => exact .fault c rfl
      | some method => exact follows_newMethod method _
    all_goals exact .anomaly c rfl

/-- The machine follows the reading of a method of the superclass. -/
theorem follows_superMethod (span : Span) (name : String) : Follows table n
    (.moved ((σ.at c).readSuper table span name next)) (superMethod table span name) σ
    (gives next) := by
  unfold State.readSuper superMethod
  cases table.lookup span with
  | none => exact .anomaly c rfl
  | some depth =>
    have hsuper := valueAt_eq "super" depth σ
    simp only [Store.at]
    cases h : σ.heap.getAt σ.scope "super" depth with
    | error a =>
      rw [h] at hsuper
      exact .trouble (bind_of_trouble (t := .anomaly a) hsuper _) rfl rfl
    | ok above =>
      rw [h] at hsuper
      refine .of_bind_ok hsuper rfl ?_
      rcases above with - | (- | - | - | - | - | - | above | -)
      case some.cls =>
        cases depth with
        | zero => exact .anomaly c rfl
        | succ inner => exact follows_methodAbove span name above inner
      all_goals exact .anomaly c rfl

/-- The machine follows the reading of a property. -/
theorem follows_property (span : Span) (name : String) (v : Value) : Follows table n
    (.moved ((σ.at c).readProperty span name v next)) (property span name v) σ (gives next) := by
  unfold State.readProperty property
  cases v.asObject name with
  | error cause => exact .fault c rfl
  | ok found =>
    obtain ⟨id, cls⟩ := found
    refine .of_bind_ok rfl rfl (.of_bind_ok rfl rfl ?_)
    simp only [Store.at]
    cases σ.heap.property id cls name with
    | error cause => exact .fault c rfl
    | ok found =>
      refine .of_bind_ok rfl rfl ?_
      cases found with
      | field v => exact .pure v (.refl _ _)
      | method closure => exact follows_newMethod closure _

end Leaves

/-! ### Parts -/

/-- The machine follows the evaluation of every expression. -/
def Evaluates (table : Distances) (n : Nat) (eval : Expr → Action Value) : Prop :=
  ∀ e σ next, Follows table n (.moved (σ.at (.evaluate e next))) (eval e) σ (gives next)

/-- The machine follows the execution of every statement. -/
def Executes (table : Distances) (n : Nat) (exec : Stmt → Action Flow) : Prop :=
  ∀ stmt σ next, Follows table n (.moved (σ.at (.execute stmt next))) (exec stmt) σ (ends next)

section Parts

variable {table : Distances} {n : Nat} {eval : Expr → Action Value} {exec : Stmt → Action Flow}

/-- The machine follows statements one after another, up to one that returns. -/
theorem Executes.follows_all (hexec : Executes table n exec) (stmts : List Stmt) (σ : Store)
    (next : AfterStmt) : Follows table n (.moved (σ.at (.ended .normal (.sequence stmts next))))
      (all exec stmts) σ (ends next) := by
  induction stmts generalizing σ with
  | nil => exact .pure _ (.step _ _)
  | cons stmt rest ih =>
    refine .lead (.step _ _) (.bind (hexec stmt σ _) fun flow σ' ↦ ?_)
    cases flow with
    | normal => exact ih σ'
    | returned v => exact .pure _ (.step _ _)

/-- When the remaining arguments are evaluated, the call is made. -/
theorem Evaluates.follows_each (heval : Evaluates table n eval) (span : Span) (callee : Value)
    (known : List Value) (rest : List Expr) (σ : Store) (c : Control) (next : AfterValue) :
    Follows table n ((σ.at c).nextArgument span callee known rest next) (each eval rest) σ
      fun vs σ' ↦ (σ'.at c).call span callee (known.reverse ++ vs) next := by
  induction rest generalizing known σ with
  | nil =>
    refine .pure _ ?_
    rw [List.append_nil]
    exact .refl _ _
  | cons e rest ih =>
    refine .bind (heval e σ (.argument span callee known rest next)) fun v σ' ↦ ?_
    refine .lead (.step _ _) (.bind (ih (v :: known) σ') fun vs σ'' ↦ .pure _ ?_)
    rw [List.reverse_cons, List.append_assoc]
    exact .refl _ _

/-- What a call comes to, when the body of the function has ended. -/
theorem follows_result (closure : Closure) (flow : Flow) (σ : Store) (c : Control)
    (next : AfterValue) : Follows table n
      (.moved (({ σ with depth := σ.depth + 1 }.at c).leaveCall σ.scope closure flow next))
      (do
        if closure.isInitializer then
          match ← observe fun σ ↦ σ.heap.getAt closure.scope "this" 0 with
          | .ok (some this) => pure this
          | _ => anomaly .thisNotInInitializer
        else
          match flow with
          | .normal => pure .nil
          | .returned v => pure v) σ (gives next) := by
  unfold State.leaveCall
  simp only [Store.at]
  cases closure.isInitializer with
  | true =>
    refine .of_bind_ok rfl rfl ?_
    simp only [if_true]
    rcases σ.heap.getAt closure.scope "this" 0 with a | (- | this)
    · exact .anomaly c rfl
    · exact .anomaly c rfl
    · exact .pure _ (.refl _ _)
  | false =>
    cases flow with
    | normal => exact .pure _ (.refl _ _)
    | returned v => exact .pure _ (.refl _ _)

/-- The machine follows a call of a function. -/
theorem Executes.follows_callFunction (hexec : Executes table n exec) (span : Span)
    (closure : Closure) (arguments : List Value) (σ : Store) (c : Control) (next : AfterValue) :
    Follows table n (.moved ((σ.at c).enter span closure arguments next))
      (callFunction exec span closure arguments) σ (gives next) := by
  unfold State.enter
  split
  · rename_i hlimit
    refine .fault c ?_
    refine (bind_of_trouble (t := .fault ⟨.callsTooDeep callLimit, span⟩) ?_ _).trans rfl
    exact if_pos hlimit
  · rename_i hlimit
    let inner := (σ.heap.child closure.scope
      (argumentTable closure.function.params arguments)).1
    let heap := (σ.heap.child closure.scope
      (argumentTable closure.function.params arguments)).2
    let τ : Store := { σ with depth := σ.depth + 1, heap }
    let left (flow : Flow) (σ' : Store) : Progress :=
      .moved ((σ'.at c).leaveCall σ'.scope closure flow next)
    let leftDeeper (flow : Flow) (σ' : Store) : Progress :=
      left flow { σ' with depth := σ'.depth + 1 }
    have hbody := hexec.follows_all closure.function.body { τ with scope := inner }
      (.leaveCall σ.scope closure next)
    have hwithin : Follows table n _ (within inner (all exec closure.function.body)) τ left :=
      .within hbody fun flow σ' ↦ .step _ _
    have hdeeper : Follows table n _ (deeper span do
        let inner ← Action.change fun σ ↦
          σ.heap.child closure.scope (argumentTable closure.function.params arguments)
        within inner (all exec closure.function.body)) σ leftDeeper :=
      .deeper hlimit (.of_bind_ok rfl rfl hwithin) fun flow σ' ↦ .refl _ _
    exact .bind hdeeper fun flow σ' ↦ follows_result closure flow σ' c next

/-- The machine follows a call of a class. -/
theorem Executes.follows_construct (hexec : Executes table n exec) (span : Span) (cls : Class)
    (arguments : List Value) (σ : Store) (c : Control) (next : AfterValue) :
    Follows table n (.moved ((σ.at c).construct span cls arguments next))
      (construct exec span cls arguments) σ (gives next) := by
  refine .of_bind_ok rfl rfl ?_
  unfold State.construct
  cases cls.initializer? with
  | none => exact .pure _ (.refl _ _)
  | some initializer =>
    refine .of_bind_ok rfl rfl (.bind (hexec.follows_callFunction span _ arguments _ c _) ?_)
    intro v σ'
    exact .pure _ (.step _ _)

/-- The machine follows a call of any value. -/
theorem Executes.follows_invoke (hexec : Executes table n exec) (span : Span) (callee : Value)
    (arguments : List Value) (σ : Store) (c : Control) (next : AfterValue) :
    Follows table n ((σ.at c).call span callee arguments next)
      (invoke exec span callee arguments) σ (gives next) := by
  unfold State.call invoke
  cases callee.accepts arguments.length with
  | error cause => exact .fault c rfl
  | ok u =>
    refine .of_bind_ok rfl rfl ?_
    cases callee with
    | native native =>
      cases native with
      | clock => exact .ask_bind fun time w ↦ .pure _ (.refl _ _)
      | input =>
        refine .ask_bind fun line w ↦ ?_
        cases line with
        | line text | closed => exact .pure _ (.refl _ _)
        | invalid => exact .trouble (t := .fault _) rfl rfl rfl
    | function id closure => exact hexec.follows_callFunction span closure arguments σ c next
    | cls cls => exact hexec.follows_construct span cls arguments σ c next
    | _ => exact .fault c rfl

/-- The machine follows the evaluation of a superclass. -/
theorem Evaluates.follows_superclass (heval : Evaluates table n eval) (parent : Name)
    (name : String) (methods : List FunDecl) (σ : Store) (c : Control) (next : AfterStmt) :
    Follows table n
      (.moved (σ.at (.evaluate parent.toExpr (.inherit parent.span name methods next))))
      (superclass eval (some parent)) σ
      fun above σ' ↦ .moved ((σ'.at c).declareClass name above methods next) := by
  refine .bind (heval _ σ _) fun v σ' ↦ .lead (.step _ _) ?_
  cases v with
  | cls above => exact .pure _ (.refl _ _)
  | _ => exact .fault c rfl

/-- The machine follows the condition of a loop, into the body or out of the loop. -/
theorem follows_holds (heval : Evaluates table n eval) (loop : Loop) (σ : Store) (c : Control)
    (next : AfterStmt) : Follows table n (.moved ((σ.at c).round loop next))
      (holds eval loop.condition) σ fun goesOn σ' ↦
        if goesOn then .moved (σ'.at (.execute loop.body (.endRound loop next)))
        else ends next .normal σ' := by
  unfold State.round
  cases loop.condition with
  | none => exact .pure true (.refl _ _)
  | some condition =>
    exact .bind (heval condition σ (.test loop next)) fun v σ' ↦ .pure _ (.step _ _)

/-- The machine follows the step of a loop, into the next round. -/
theorem follows_advance (heval : Evaluates table n eval) (loop : Loop) (σ : Store) (c : Control)
    (next : AfterStmt) : Follows table n
      (match loop.step with
        | none => .moved ((σ.at c).round loop next)
        | some step => .moved { σ.at c with control := .evaluate step (.round loop next) })
      (advance eval loop.step) σ fun _ σ' ↦ .moved ((σ'.at c).round loop next) := by
  cases loop.step with
  | none => exact .pure _ (.refl _ _)
  | some step => exact .bind (heval step σ (.round loop next)) fun v σ' ↦ .pure _ (.step _ _)

/-- The machine follows the rounds of a loop. -/
theorem follows_rounds (heval : Evaluates table n eval) (hexec : Executes table n exec)
    (loop : Loop) {m : Nat} (hm : m ≤ n) (σ : Store) (c : Control) (next : AfterStmt) :
    Follows table m (.moved ((σ.at c).round loop next)) (rounds eval exec loop m) σ
      (ends next) := by
  induction m generalizing σ c with
  | zero => exact rfl
  | succ m ih =>
    have hm' : m ≤ n := Nat.le_of_succ_le hm
    refine .bind ((follows_holds heval loop σ c next).mono hm) fun goesOn σ' ↦ ?_
    cases goesOn with
    | false => exact .pure _ (.refl _ _)
    | true =>
      refine .bind ((hexec loop.body σ' _).mono hm) fun flow σ'' ↦ ?_
      cases flow with
      | returned v => exact .pure _ (.step _ _)
      | normal =>
        -- One step leads into the next round, so the steps keep up with the rounds.
        exact .step (.bind ((follows_advance heval loop σ'' _ next).mono hm') fun _ σ ↦ ih hm' σ _)

end Parts

/-! ### Statements and expressions -/

section Recursion

variable {table : Distances} {n : Nat}

/-- The machine follows the evaluation of an expression if it does so one level further down. -/
theorem evaluates_succ (heval : Evaluates table n (evaluate table n))
    (hexec : Executes table n (execute table n)) :
    Evaluates table (n + 1) (evaluate table (n + 1)) := by
  intro e σ next
  unfold evaluate
  refine .step ?_
  cases e with
  | literal _ value => exact .pure _ (.refl _ _)
  | var span name => exact follows_lookup span name
  | assign span name value =>
    refine .bind (heval value σ (.assign span name next)) fun v σ' ↦ .lead (.step _ _) ?_
    exact .bind (follows_assign span name v v) fun _ σ'' ↦ .pure _ (.refl _ _)
  | step span side op name => exact follows_stepVariable span side op name
  | group _ inner => exact heval inner σ next
  | unary span op operand =>
    refine .bind (heval operand σ (.unary span op next)) fun v σ' ↦ .lead (.step _ _) ?_
    exact follows_orFault span
  | binary span op left right =>
    refine .bind (heval left σ (.left span op right next)) fun v σ' ↦ .lead (.step _ _) ?_
    change Follows table n ((σ'.at _).accept table v (.left span op right next)) _ σ' _
    unfold State.accept
    simp only
    cases v.decides op with
    | true => exact .pure v (.refl _ _)
    | false =>
      refine .bind (heval right σ' (.right span op v next)) fun w σ'' ↦ .lead (.step _ _) ?_
      exact follows_orFault span
  | call span callee arguments =>
    refine .bind (heval callee σ (.callee span arguments next)) fun v σ' ↦ .lead (.step _ _) ?_
    change Follows table n ((σ'.at _).accept table v (.callee span arguments next)) _ σ' _
    unfold State.accept
    simp only
    cases v.callable with
    | error cause => exact .fault _ rfl
    | ok u =>
      refine .of_bind_ok rfl rfl (.bind (heval.follows_each span v [] arguments σ' _ next) ?_)
      exact fun vs σ'' ↦ hexec.follows_invoke span v vs σ'' _ next
  | property span object name =>
    refine .bind (heval object σ (.property span name next)) fun v σ' ↦ .lead (.step _ _) ?_
    exact follows_property span name v
  | setProperty span object name value =>
    refine .bind (heval object σ (.target span name value next)) fun v σ' ↦ .lead (.step _ _) ?_
    change Follows table n ((σ'.at _).accept table v (.target span name value next)) _ σ' _
    unfold State.accept
    simp only
    cases v.asObject name with
    | error cause => exact .fault _ rfl
    | ok found =>
      obtain ⟨id, cls⟩ := found
      refine .of_bind_ok rfl rfl (.bind (heval value σ' (.field id name next)) fun w σ'' ↦ ?_)
      exact .change _ (.step _ _)
  | this span => exact follows_lookup span "this"
  | super span name => exact follows_superMethod span name
  | lambda function => exact .change _ (.refl _ _)

/-- The machine follows the execution of a statement if it does so one level further down. -/
theorem executes_succ (heval : Evaluates table n (evaluate table n))
    (hexec : Executes table n (execute table n)) :
    Executes table (n + 1) (execute table (n + 1)) := by
  intro stmt σ next
  unfold execute
  refine .step ?_
  cases stmt with
  | expression _ value =>
    exact .bind (heval value σ (.discard next)) fun v σ' ↦ .pure _ (.step _ _)
  | print span value =>
    refine .bind (heval value σ (.print span next)) fun v σ' ↦ .lead (.step _ _) ?_
    refine .ask_bind fun b w ↦ ?_
    cases b with
    | true => exact .pure _ (.refl _ _)
    | false => exact .trouble (t := .fault _) rfl rfl rfl
  | varDecl _ name value =>
    cases value with
    | none => exact .bind (.change _ (.refl _ _)) fun _ σ' ↦ .pure _ (.refl _ _)
    | some value =>
      refine .bind (heval value σ (.define name next)) fun v σ' ↦ .lead (.step _ _) ?_
      exact .of_bind_ok rfl rfl (.pure _ (.refl _ _))
  | funDecl function => exact .of_bind_ok rfl rfl (.of_bind_ok rfl rfl (.pure _ (.refl _ _)))
  | classDecl _ name parent methods =>
    refine .of_bind_ok rfl rfl ?_
    cases parent with
    | none =>
      refine .of_bind_ok rfl rfl (.of_bind_ok rfl rfl (.of_bind_ok rfl rfl ?_))
      exact .pure _ (.refl _ _)
    | some parent =>
      refine .bind (heval.follows_superclass parent name methods _ (.ended .normal next) next) ?_
      exact fun above σ' ↦ .of_bind_ok rfl rfl (.of_bind_ok rfl rfl (.pure _ (.refl _ _)))
  | block _ body =>
    refine .of_bind_ok rfl rfl (.within (hexec.follows_all body _ (.leave σ.scope next)) ?_)
    exact fun flow σ' ↦ .step _ _
  | conditional _ condition yes no =>
    refine .bind (heval condition σ (.choose yes no next)) fun v σ' ↦ .lead (.step _ _) ?_
    change Follows table n ((σ'.at _).accept table v (.choose yes no next)) _ σ' _
    unfold State.accept
    simp only
    cases v.isTruthy with
    | true => exact hexec yes σ' next
    | false =>
      cases no with
      | none => exact .pure _ (.refl _ _)
      | some no => exact hexec no σ' next
  | whileLoop _ condition body =>
    exact follows_rounds heval hexec ⟨some condition, none, body⟩ (Nat.le_refl n) σ _ next
  | forLoop _ init condition step body =>
    let loop : Loop := ⟨condition, step, body⟩
    have hleave (flow : Flow) (σ' : Store) : (ends (.leave σ.scope next) flow σ').Leads table
        σ'.world (ends next flow { σ' with scope := σ.scope }) σ'.world := .step _ _
    refine .of_bind_ok rfl rfl (.within ?_ hleave)
    refine .bind (K := fun _ σ' ↦ .moved ((σ'.at (.ended .normal next)).round loop
      (.leave σ.scope next))) ?_ ?_
    · cases init with
      | none => exact .pure _ (.refl _ _)
      | some init =>
        refine .bind (hexec init _ (.enterLoop loop (.leave σ.scope next))) fun flow σ' ↦ ?_
        exact .pure _ (.step _ _)
    · exact fun _ σ' ↦ follows_rounds heval hexec loop (Nat.le_refl n) σ' _ _
  | returns _ value =>
    cases value with
    | none => exact .pure _ (.refl _ _)
    | some value =>
      exact .bind (heval value σ (.returns next)) fun v σ' ↦ .pure _ (.step _ _)

end Recursion

/-- The machine follows the evaluation of every expression and the execution of every statement. -/
theorem follows (table : Distances) (n : Nat) :
    Evaluates table n (evaluate table n) ∧ Executes table n (execute table n) := by
  induction n with
  | zero =>
    constructor
    · intro e σ next
      unfold evaluate
      exact rfl
    · intro stmt σ next
      unfold execute
      exact rfl
  | succ n ih =>
    obtain ⟨heval, hexec⟩ := ih
    exact ⟨evaluates_succ heval hexec, executes_succ heval hexec⟩

/-- The machine follows the execution of a program from the start. -/
theorem follows_program (table : Distances) (n : Nat) (p : Program) (heap : Heap) (w : World) :
    Follows table n (.moved (.start heap p)) (program table n p) ⟨Heap.globals, 0, heap, w⟩
      fun _ σ ↦ .stopped .done σ.heap := by
  obtain ⟨-, hexec⟩ := follows table n
  refine .bind (hexec.follows_all p _ .done) fun flow σ ↦ .lead (.step _ _) ?_
  cases flow with
  | normal => exact .pure _ (.refl _ _)
  | returned v => exact .anomaly _ rfl

namespace Interpreter

/-- An interpreter that begins in the global scope and outside of all calls comes to what the
machine comes to, with enough steps. If the recursion is not deep enough, then so many steps are not
enough. -/
theorem run_agrees {i : Interpreter} (hscope : i.scope = Heap.globals) (hdepth : i.depth = 0)
    (n : Nat) (w : World) (text : String) :
    (∀ verdict w' i', i.run n w text = some (verdict, w', i') →
      ∃ m, ∀ k, i.session.run (m + k) w text = (verdict, w', i'.session)) ∧
    (i.run n w text = none → (i.session.run n w text).1 = .unfinished) := by
  unfold run
  rcases hload : i.session.load text with ⟨s, faults | p⟩
  · refine ⟨fun verdict w' i' hrun ↦ ⟨0, fun k ↦ ?_⟩, nofun⟩
    cases hrun
    unfold Session.run
    rw [hload]
  · have hfollows := follows_program s.distances n p s.heap w
    simp only [hscope, hdepth]
    unfold Follows at hfollows
    cases hexit : program s.distances n p ⟨Heap.globals, 0, s.heap, w⟩ with
    | finished result σ =>
      rw [hexit] at hfollows
      refine ⟨fun verdict w' i' hrun ↦ ?_, nofun⟩
      cases hrun
      cases result <;> exact Session.run_of_leads hload hfollows
    | broken a σ =>
      rw [hexit] at hfollows
      refine ⟨fun verdict w' i' hrun ↦ ?_, nofun⟩
      cases hrun
      exact Session.run_of_leads hload hfollows
    | unfinished =>
      rw [hexit] at hfollows
      refine ⟨nofun, fun _ ↦ ?_⟩
      have hending : ((State.start s.heap p).run s.distances n w).2.2 = none := hfollows
      rw [Session.run_of_load hload]
      simp only [hending]
      rfl

end Interpreter

end Direct

end LoxLang
