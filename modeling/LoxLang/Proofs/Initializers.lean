import LoxLang.Program.Equality
import LoxLang.Proofs.Held
import LoxLang.Proofs.Direct.Agreement
import LoxLang.Proofs.Stops

/-!
# Initializers

Two parts of the language decide what an initializer is: the walk that finds faults, by where a
function is written, and a class that is made, by the name of a method. They agree
(`Moment.Reached.initializers`): a function counts as an initializer just if it was bound from a
method with that name, and the body of one never ends with a value of its own. So a call of a class
gives the new instance, and a call of an initializer gives the instance that it was read from.
-/

namespace LoxLang

/-! ### What the initializers are -/

namespace Moment

/-- The function was bound at an earlier moment, from a method that is named as initializers are. -/
def BoundInitializer (M : Moment) (c : Closure) : Prop :=
  ∃ (s : Session) (t t' : State) (places : List Place) (m : Closure) (r : Value),
    (running s t places).Reached ∧ t.Binds s.distances t' m r ∧
    (running s t' (places ++ t.opened t')).Later M ∧ c = m.bind t.heap.frames.size ∧
    m.function.name = FunDecl.initializer

/-- A function that counts as an initializer was bound as one, a method counts as one by its name,
and instances are numbered in the order in which they are made. -/
def demands (M : Moment) : Demands where
  function c := c.isInitializer = true → M.BoundInitializer c
  method x m := m.function.name = x ∧ m.isInitializer = m.function.isInitializer
  object i _ := i < M.heap.objects.size

theorem demands_le {M M' : Moment} (hM : M.Reached) (hnext : M.Next M') :
    M.demands.Le M'.demands := by
  have hlater : M.Later M' := .single hnext
  refine ⟨fun h hc ↦ ?_, id, fun hi ↦ Nat.lt_of_lt_of_le hi (hlater.keeps hM).1.objects⟩
  obtain ⟨s, t, t', places, m, r, hreached, hbinds, hlater', hm⟩ := h hc
  exact ⟨s, t, t', places, m, r, hreached, hbinds, hlater'.trans hlater, hm⟩

end Moment

/-- A step that is made without a reply leads to one state only. -/
theorem State.Steps.eq_of_moved {s s' s'' : State} {table : Distances} (h : s.Steps table s')
    (hstep : s.step table = .moved s'') : s' = s'' := by
  cases h with
  | moved h => exact Progress.moved.inj (h.symm.trans hstep)
  | replied h _ => cases h.symm.trans hstep

/-- A class that is called with as many arguments as it takes makes an instance. -/
theorem State.step_of_class {s : State} {span : Span} {c : Class} {vs : List Value}
    (h : s.calling? = some (span, .cls c, vs))
    (haccepts : (Value.cls c).accepts vs.length = .ok ()) (table : Distances) :
    ∃ k, s.step table = .moved (s.construct span c vs k) := by
  obtain ⟨k, hstep | ⟨cause, hcause, -⟩⟩ := s.step_of_calling? table h
  · refine ⟨k, hstep.trans ?_⟩
    unfold State.call
    rw [haccepts]
  · cases hcause

theorem State.size_objects_construct (s : State) (span : Span) (c : Class) (vs : List Value)
    (k : AfterValue) : (s.construct span c vs k).heap.objects.size = s.heap.objects.size + 1 := by
  unfold State.construct
  cases c.initializer? with
  | none => exact Array.size_push ..
  | some i =>
    dsimp only
    unfold State.enter
    split <;> exact Array.size_push ..

namespace Moment

/-- What a step makes is as it should be. -/
theorem supplies {s : Session} {t t' : State} {places : List Place}
    (hreached : (running s t places).Reached) (hstep : t.Steps s.distances t') :
    t.Supplies (running s t' (places ++ t.opened t')).demands s.distances := by
  refine ⟨fun _ h ↦ ?_, fun {s' x m r} h hm hc ↦ ?_, fun _ _ ↦ ⟨rfl, rfl⟩, fun h haccepts ↦ ?_⟩
  · cases h
  · obtain rfl : t' = s' := by
      cases h with
      | property _ _ _ h _ | super _ _ _ h _ | construct _ _ _ h _ => exact hstep.eq_of_moved h
    refine ⟨s, t, t', places, m, r, hreached, h, .refl, rfl, ?_⟩
    have hname : m.function.isInitializer = true := hm.2.symm.trans hc
    exact beq_iff_eq.1 hname
  · obtain ⟨k, hmoved⟩ := t.step_of_class h haccepts s.distances
    obtain rfl := hstep.eq_of_moved hmoved
    show _ < (t.construct _ _ _ k).heap.objects.size
    rw [t.size_objects_construct]
    exact Nat.lt_succ_self _

/-- At every moment, functions, methods and instances are as they should be. -/
theorem Reached.demands {M : Moment} (h : M.Reached) : M.Satisfies M.demands :=
  h.satisfies (fun _ _ ↦ demands_le) fun _ _ _ _ ↦ supplies

end Moment

/-! ### What calls give -/

/-- What is demanded of the numbers of instances alone. -/
def Demands.objects (p : Nat → Prop) : Demands where
  function _ := True
  method _ _ := True
  object i _ := p i

namespace Direct

open LoxLang.Direct.Action

/-- An action that has a result is one of two that have. -/
theorem Action.of_bind_ok {α β : Type} {p : Action α} {f : α → Action β} {σ σ' : Store} {b : β}
    (h : (p >>= f) σ = .finished (.ok b) σ') :
    ∃ a τ, p σ = .finished (.ok a) τ ∧ f a τ = .finished (.ok b) σ' := by
  change Action.bind p f σ = _ at h
  unfold Action.bind at h
  cases hp : p σ with
  | finished result τ =>
    rw [hp] at h
    cases result with
    | ok a => exact ⟨a, τ, rfl, h⟩
    | error _ => cases h
  | broken _ _ | unfinished =>
    rw [hp] at h
    cases h

theorem Action.of_orFault_ok {α : Type} {span : Span} {r : Except Cause α} {a : α} {σ σ' : Store}
    (h : orFault span r σ = .finished (.ok a) σ') : r = .ok a ∧ σ' = σ := by
  cases r <;> cases h
  exact ⟨rfl, rfl⟩

variable {exec : Stmt → Action Flow} {span : Span} {args : List Value} {v : Value} {σ σ' : Store}

/-- A call of an initializer gives what `this` is in the frame that it was bound in. -/
theorem this_of_callFunction {c : Closure} (hc : c.isInitializer = true)
    (h : callFunction exec span c args σ = .finished (.ok v) σ') :
    σ'.heap.getAt c.scope "this" 0 = .ok (some v) := by
  unfold callFunction at h
  obtain ⟨flow, τ, -, h⟩ := of_bind_ok h
  rw [if_pos hc] at h
  obtain ⟨found, τ', hfound, h⟩ := of_bind_ok h
  obtain ⟨hthis, rfl⟩ : τ.heap.getAt c.scope "this" 0 = found ∧ τ = τ' := by
    cases hfound
    exact ⟨rfl, rfl⟩
  rcases found with _ | (_ | this)
  all_goals cases h
  exact hthis

/-- A call of a class gives the instance that was made for it. -/
theorem eq_of_construct {c : Class} (h : construct exec span c args σ = .finished (.ok v) σ') :
    v = .object σ.heap.objects.size c := by
  unfold construct at h
  obtain ⟨object, τ, hobject, h⟩ := of_bind_ok h
  cases hobject
  cases hinitializer : c.initializer? with
  | none =>
    rw [hinitializer] at h
    cases h
    rfl
  | some initializer =>
    rw [hinitializer] at h
    obtain ⟨bound, τ', -, h⟩ := of_bind_ok h
    obtain ⟨result, τ'', -, h⟩ := of_bind_ok h
    cases h
    rfl

/-- Only what accepts the arguments is called. -/
theorem accepts_of_invoke {callee : Value}
    (h : invoke exec span callee args σ = .finished (.ok v) σ') :
    callee.accepts args.length = .ok () := by
  unfold invoke at h
  obtain ⟨_, _, haccepts, -⟩ := of_bind_ok h
  exact (of_orFault_ok haccepts).1

end Direct

/-- The step makes a call, and executed by recursion the call gives a value. -/
def State.Yields (t : State) (table : Distances) (callee v : Value) : Prop :=
  ∃ span args n w σ, t.calling? = some (span, callee, args) ∧
    Direct.invoke (Direct.execute table n) span callee args ⟨t.scope, t.depth, t.heap, w⟩ =
      .finished (.ok v) σ

namespace Moment

/-- From here the session can come to the state, with a reply if one is asked for. -/
def ComesTo (s : Session) (u : State) : Progress → Prop
  | .moved t => ∀ places, ∃ places', (running s t places).Later (running s u places')
  | .waiting _ resume =>
    ∃ reply, ∀ places, ∃ places', (running s (resume reply) places).Later (running s u places')
  | .stopped _ _ => False

theorem ComesTo.of_step {s : Session} {t u : State} (h : ComesTo s u (t.step s.distances)) :
    ComesTo s u (.moved t) := by
  intro places
  have hnext {t' : State} (hstep : t.Steps s.distances t')
      (h : ∀ places, ∃ places', (running s t' places).Later (running s u places')) :
      ∃ places', (running s t places).Later (running s u places') := by
    obtain ⟨places', hlater⟩ := h (places ++ t.opened t')
    exact ⟨places', hlater.head (.step hstep)⟩
  cases hstep : t.step s.distances with
  | moved t' =>
    rw [hstep] at h
    exact hnext (.moved hstep) h
  | waiting request resume =>
    rw [hstep] at h
    obtain ⟨reply, h⟩ := h
    exact hnext (.replied hstep rfl) h
  | stopped ending heap =>
    rw [hstep] at h
    exact h.elim

/-- Where the machine gets to, the session can come. -/
theorem exists_later_of_leads {s : Session} {t u : State} (places : List Place) {w w' : World}
    (h : (Progress.moved t).Leads s.distances w (.moved u) w') :
    ∃ places', (running s t places).Later (running s u places') := by
  suffices hall : ∀ {g g' : Progress}, g.Leads s.distances w g' w' → g' = .moved u →
      ComesTo s u g from hall h rfl places
  clear h
  intro g g' h hg'
  induction h with
  | refl =>
    subst hg'
    exact fun places ↦ ⟨places, .refl⟩
  | on _ ih => exact .of_step (ih hg')
  | reply _ ih => exact ⟨_, ih hg'⟩

/-- What a call that gives a value leaves is the heap of a later moment. -/
theorem exists_later_of_invoke {s : Session} {t : State} (places : List Place) {callee v : Value}
    {span : Span} {args : List Value} {n : Nat} {w : World} {σ : Direct.Store}
    (hcall : t.calling? = some (span, callee, args))
    (hinvoke : Direct.invoke (Direct.execute s.distances n) span callee args
      ⟨t.scope, t.depth, t.heap, w⟩ = .finished (.ok v) σ) :
    ∃ u places', (running s t places).Later (running s u places') ∧ u.heap = σ.heap := by
  have haccepts := Direct.accepts_of_invoke hinvoke
  obtain ⟨k, hstep | ⟨cause, hcause, -⟩⟩ := t.step_of_calling? s.distances hcall
  · have hfollows := (Direct.follows s.distances n).2.follows_invoke span callee args
      ⟨t.scope, t.depth, t.heap, w⟩ t.control k
    unfold Direct.Follows at hfollows
    rw [hinvoke] at hfollows
    obtain ⟨places', hlater⟩ :=
      exists_later_of_leads places ((Progress.Leads.step t w).trans (hstep ▸ hfollows))
    exact ⟨_, places', hlater, rfl⟩
  · rw [Value.callable_of_accepts haccepts] at hcause
    cases hcause

/-- A method that is bound counts as an initializer just if it is named as initializers are. -/
theorem isInitializer_of_binds {s : Session} {t t' : State} {places : List Place} {m : Closure}
    {r : Value} (hreached : (running s t places).Reached) (hbinds : t.Binds s.distances t' m r) :
    m.isInitializer = true ↔ m.function.name = FunDecl.initializer := by
  obtain ⟨x, -, hm⟩ := hbinds.method hreached.demands
  rw [hm]
  exact beq_iff_eq

theorem BoundInitializer.isInitializer {M : Moment} {c : Closure} (h : M.BoundInitializer c) :
    c.isInitializer = true := by
  obtain ⟨s, t, t', places, m, r, hreached, hbinds, -, rfl, hname⟩ := h
  exact (isInitializer_of_binds hreached hbinds).2 hname

/-- The body of an initializer ends without a value of its own. -/
theorem Reached.flow_of_initializer {s : Session} {t : State} {places : List Place}
    (h : (running s t places).Reached) {flow : Flow} {scope : Chain} {c : Closure} {k : AfterValue}
    (hcontrol : t.control = .ended flow (.leaveCall scope c k)) (hc : c.isInitializer = true) :
    flow = .normal ∨ flow = .returned .nil := by
  have hstuck : ¬ t.IsStuck := fun ⟨_, h⟩ ↦ Control.noConfusion (h.symm.trans hcontrol)
  obtain ⟨known, -, hsound, -⟩ := h.sound
  obtain ⟨-, P, left, r, -, related⟩ := hsound.related hstuck
  obtain ⟨H, control⟩ := related
  rw [hcontrol] at control
  generalize r.control = c' at control
  generalize t.scope.frame = f at control
  cases control with
  | ended hflow next =>
    cases next with
    | leaveCall _ _ _ initializer _ =>
      cases hflow with
      | normal => exact .inl rfl
      | returned _ hnil _ => exact .inr (congrArg Flow.returned (hnil (initializer hc)))

/-- A call of a class gives the instance that is numbered next. -/
theorem eq_of_yields_class {t : State} {table : Distances} {c : Class} {v : Value}
    (h : t.Yields table (.cls c) v) : v = .object t.heap.objects.size c := by
  obtain ⟨span, args, n, w, σ, -, hinvoke⟩ := h
  unfold Direct.invoke at hinvoke
  obtain ⟨_, τ, haccepts, hinvoke⟩ := Direct.Action.of_bind_ok hinvoke
  obtain ⟨-, rfl⟩ := Direct.Action.of_orFault_ok haccepts
  exact Direct.eq_of_construct hinvoke

/-- No earlier state holds the instance that is numbered next. -/
theorem Reached.new_instance {s : Session} {t : State} {places : List Place}
    {s₀ : Session} {t₀ : State} {places₀ : List Place} (h₀ : (running s₀ t₀ places₀).Reached)
    (hlater : (running s₀ t₀ places₀).Later (running s t places)) :
    t₀.Satisfies (.objects (· ≠ t.heap.objects.size)) := by
  have hkeeps : t₀.heap.Keeps t.heap := (hlater.keeps h₀).1
  refine State.Satisfies.mono h₀.demands ⟨fun _ ↦ trivial, fun _ ↦ trivial, fun {i C} hi ↦ ?_⟩
  exact Nat.ne_of_lt (Nat.lt_of_lt_of_le (show i < t₀.heap.objects.size from hi) hkeeps.objects)

/-- A call of a bound initializer gives the instance that it was bound to. -/
theorem eq_of_yields_initializer {s₀ s : Session} {t₀ t₁ t : State} {places₀ places : List Place}
    {m : Closure} {r v : Value} {i : Nat}
    (h₀ : (running s₀ t₀ places₀).Reached) (hbinds : t₀.Binds s₀.distances t₁ m r)
    (hlater : (running s₀ t₁ (places₀ ++ t₀.opened t₁)).Later (running s t places))
    (hname : m.function.name = FunDecl.initializer)
    (hyields : t.Yields s.distances (.function i (m.bind t₀.heap.frames.size)) v) : v = r := by
  obtain ⟨span, args, n, w, σ, hcall, hinvoke⟩ := hyields
  obtain ⟨u, places', hlater', hheap⟩ := exists_later_of_invoke places hcall hinvoke
  obtain ⟨hthis, -⟩ := Later.receiver h₀ hbinds (hlater.trans hlater')
  have hinitializer : (m.bind t₀.heap.frames.size).isInitializer = true :=
    (isInitializer_of_binds h₀ hbinds).2 hname
  unfold Direct.invoke at hinvoke
  obtain ⟨_, τ, -, hinvoke⟩ := Direct.Action.of_bind_ok hinvoke
  have hvalue := Direct.this_of_callFunction hinitializer hinvoke
  rw [← hheap] at hvalue
  have hgetAt : u.heap.getAt (m.bind t₀.heap.frames.size).scope "this" 0 = .ok (some r) :=
    congrArg Except.ok hthis
  exact Option.some.inj (Except.ok.inj (hvalue.symm.trans hgetAt))

/-- What is an initializer counts as one, and gives the instance, at every moment. A function counts
as an initializer just if it was bound from a method that is named so, and a method of a class just
if the class has it under that name. The body of an initializer ends without a value of its own. A
call of a class gives an instance of the class, numbered as no instance is that a state before
holds; and the call of an initializer that was bound to an instance gives that instance. -/
theorem Reached.initializers {s : Session} {t : State} {places : List Place}
    (h : (running s t places).Reached) :
    t.Satisfies
      { function := fun c ↦ c.isInitializer = true ↔ (running s t places).BoundInitializer c
        method := fun x m ↦ m.isInitializer = true ↔ x = FunDecl.initializer
        object := fun i _ ↦ i < t.heap.objects.size } ∧
    (∀ flow scope c k, t.control = .ended flow (.leaveCall scope c k) → c.isInitializer = true →
      flow = .normal ∨ flow = .returned .nil) ∧
    (∀ c v, t.Yields s.distances (.cls c) v → v = .object t.heap.objects.size c ∧
      ∀ s₀ t₀ places₀, (running s₀ t₀ places₀).Reached →
        (running s₀ t₀ places₀).Later (running s t places) →
          t₀.Satisfies (.objects (· ≠ t.heap.objects.size))) ∧
    ∀ s₀ t₀ t₁ places₀ m r, (running s₀ t₀ places₀).Reached → t₀.Binds s₀.distances t₁ m r →
      (running s₀ t₁ (places₀ ++ t₀.opened t₁)).Later (running s t places) →
        m.function.name = FunDecl.initializer →
          ∀ i v, t.Yields s.distances (.function i (m.bind t₀.heap.frames.size)) v → v = r := by
  refine ⟨State.Satisfies.mono h.demands ⟨fun hc ↦ ⟨hc, BoundInitializer.isInitializer⟩, ?_, id⟩,
    fun _ _ _ _ ↦ h.flow_of_initializer, fun c v hyields ↦ ⟨eq_of_yields_class hyields, ?_⟩,
    fun _ _ _ _ _ _ h₀ hbinds hlater hname _ _ ↦
      eq_of_yields_initializer h₀ hbinds hlater hname⟩
  · rintro x m ⟨rfl, hm⟩
    show m.isInitializer = true ↔ _
    rw [hm]
    exact beq_iff_eq
  · exact fun _ _ _ h₀ hlater ↦ h₀.new_instance hlater

/-- The initializer of a class returns early. It is read from a new instance and called again, and
gives that instance again. -/
theorem Reached.initializers_called_again :
    ∃ (s : Session) (p : Program) (t : State) (places : List Place) (callee : Value) (c : Class),
      Session.new.load "class C \x7b init() \x7b return; \x7d \x7d C().init();" = (s, .ok p) ∧
      (running s t places).Reached ∧ t.calling? = some (⟨31, 41⟩, callee, []) ∧
      (∃ v, t.Yields s.distances callee v) ∧
      ∀ v, t.Yields s.distances callee v → v = .object 0 c := by
  have hload : Session.new.load "class C \x7b init() \x7b return; \x7d \x7d C().init();" =
      (⟨"class C \x7b init() \x7b return; \x7d \x7d C().init();\n", [], Session.new.heap⟩,
      .ok [.classDecl ⟨0, 30⟩ "C" none [.mk ⟨10, 28⟩ "init" [] [.returns ⟨19, 26⟩ none]],
        .expression ⟨31, 42⟩ (.call ⟨31, 41⟩
          (.property ⟨31, 39⟩ (.call ⟨31, 34⟩ (.var ⟨31, 32⟩ "C") []) "init") [])]) :=
    Session.load_of_read Session.globalNames_new (by decide +kernel) rfl rfl rfl
  generalize "class C \x7b init() \x7b return; \x7d \x7d C().init();" = text at hload ⊢
  generalize hs : (⟨_, _, _⟩ : Session) = s at hload
  generalize hp : List.cons (Stmt.classDecl ⟨0, 30⟩ "C" none _) _ = p at hload
  have hstart : (running s (.start s.heap p) []).Reached := .tail .refl (.accept hload)
  let init : FunDecl := .mk ⟨10, 28⟩ "init" [] [.returns ⟨19, 26⟩ none]
  let m : Closure := ⟨init, Heap.globals, true⟩
  let c : Class := .mk 0 "C" none [("init", m)]
  let frames : Array Table := #[[("clock", .native .clock), ("input", .native .input),
    ("C", .cls c)], [("this", .object 0 c)], []]
  let k : AfterValue := .callee ⟨31, 41⟩ [] (.discard (.sequence [] .done))
  -- the state in which the initializer is read from the new instance
  let t : State := ⟨.value (.object 0 c) (.property ⟨31, 39⟩ "init" k), Heap.globals, 0,
    ⟨frames, #[[]], 0, 1⟩⟩
  have ht : ∃ places, (running s (.start s.heap p) []).ahead 14 = running s t places := by
    subst hs hp
    exact ⟨_, rfl⟩
  obtain ⟨places, ht⟩ := ht
  have hreached : (running s t places).Reached := hstart.later (ht ▸ later_ahead 14 _)
  have hbinds : t.Binds s.distances (t.giveMethod m (.object 0 c) k) m (.object 0 c) :=
    .property rfl rfl rfl rfl rfl
  let w : World := .ofInput [] none fun _ ↦ 0
  refine ⟨s, p, _, _, .function 0 (m.bind 3), c, hload, hreached.step hbinds.steps, rfl,
    ⟨_, _, _, 3, w, _, rfl, rfl⟩, ?_⟩
  exact (Reached.initializers (hreached.step hbinds.steps)).2.2.2 s t _ places m _ hreached hbinds
    .refl rfl 0

end Moment

end LoxLang
