import LoxLang.Proofs.Contents

/-!
# The functions, classes and instances that a state contains

Something is demanded of every function, every method of a class and every instance. Where all
values that a state contains are as demanded (`State.Satisfies`), and those that a step makes are
too (`State.Supplies`), all values in the state that the step leads to are as demanded
(`State.Satisfies.step`).
-/

namespace LoxLang

/-- What is demanded of values. -/
structure Demands where
  /-- Of a function that is a value. -/
  function : Closure → Prop
  /-- Of a method of a class, under this name. -/
  method : String → Closure → Prop
  /-- Of an instance with this number and this class. -/
  object : Nat → Class → Prop

variable {D D' : Demands}

/-! ### Values -/

/-- The class and those above it are as demanded. -/
inductive Class.Satisfies (D : Demands) : Class → Prop
  | base {id : Nat} {name : String} {methods : List (String × Closure)}
      (h : ∀ m ∈ methods, D.method m.1 m.2) : Satisfies D (.mk id name none methods)
  | derived {id : Nat} {name : String} {above : Class} {methods : List (String × Closure)}
      (habove : Satisfies D above) (h : ∀ m ∈ methods, D.method m.1 m.2) :
      Satisfies D (.mk id name (some above) methods)

/-- The value is as demanded. -/
def Value.Satisfies (D : Demands) : Value → Prop
  | .function _ c => D.function c
  | .cls c => c.Satisfies D
  | .object id c => D.object id c ∧ c.Satisfies D
  | _ => True

theorem Value.Plain.satisfies {v : Value} (h : v.Plain) : v.Satisfies D := by
  cases v <;> first | exact trivial | exact h.elim

theorem lookup_mem {α β : Type} [BEq α] [LawfulBEq α] {l : List (α × β)} {a : α} {b : β}
    (h : l.lookup a = some b) : (a, b) ∈ l := by
  obtain ⟨l₁, l₂, rfl, -⟩ := List.lookup_eq_some_iff.1 h
  simp

namespace Class.Satisfies

/-- A method that is found is as demanded, whichever class declares it. -/
theorem method? {c : Class} (h : c.Satisfies D) {x : String} {m : Closure}
    (hm : c.method? x = some m) : D.method x m := by
  induction h with
  | base h => exact h (x, m) (lookup_mem hm)
  | @derived id name above methods _ h ih =>
    unfold Class.method? at hm
    cases hown : methods.lookup x with
    | some own =>
      rw [hown] at hm
      obtain rfl := Option.some.inj hm
      exact h (x, own) (lookup_mem hown)
    | none =>
      rw [hown] at hm
      exact ih hm

end Class.Satisfies

/-- The second demands are weaker. -/
structure Demands.Le (D D' : Demands) : Prop where
  function {c : Closure} : D.function c → D'.function c
  method {x : String} {c : Closure} : D.method x c → D'.method x c
  object {id : Nat} {c : Class} : D.object id c → D'.object id c

theorem Class.Satisfies.mono {c : Class} (h : c.Satisfies D) (hD : D.Le D') : c.Satisfies D' := by
  induction h with
  | base h => exact .base fun m hm ↦ hD.method (h m hm)
  | derived _ h ih => exact .derived ih fun m hm ↦ hD.method (h m hm)

theorem Value.Satisfies.mono {v : Value} (h : v.Satisfies D) (hD : D.Le D') :
    v.Satisfies D' := by
  cases v with
  | function id c => exact hD.function h
  | cls c => exact Class.Satisfies.mono h hD
  | object id c => exact ⟨hD.object h.1, h.2.mono hD⟩
  | _ => exact trivial

/-! ### States -/

/-- All values that the heap contains are as demanded. -/
abbrev Heap.Satisfies (D : Demands) (h : Heap) : Prop := h.All (Value.Satisfies D)

/-- All values that the state contains are as demanded. -/
abbrev State.Satisfies (D : Demands) (s : State) : Prop := s.All (Value.Satisfies D)

theorem State.Satisfies.mono {s : State} (h : s.Satisfies D) (hD : D.Le D') : s.Satisfies D' :=
  State.All.mono h fun _ hv ↦ hv.mono hD

/-! ### What a step makes -/

/-- The methods of the class that the next step makes. -/
def State.declaredMethods (s : State) : List FunDecl :=
  match s.control with
  | .execute (.classDecl _ _ none methods) _ | .value (.cls _) (.inherit _ _ methods _) => methods
  | _ => []

theorem State.Declares.declaredMethods {s : State} {c : Class} {decls : List FunDecl}
    {scope : Chain} (h : s.Declares c decls scope) : s.declaredMethods = decls ∧
      (scope = s.scope ∨ scope = s.scope.push s.heap.frames.size) := by
  unfold State.declaredMethods
  cases h with
  | base hcontrol => exact ⟨by rw [hcontrol], .inl rfl⟩
  | derived hcontrol => exact ⟨by rw [hcontrol], .inr rfl⟩

/-- What the next step makes is as demanded. -/
structure State.Supplies (D : Demands) (table : Distances) (s : State) : Prop where
  made {f : FunDecl} (h : s.Makes f) : D.function ⟨f, s.scope, false⟩
  bound {s' : State} {x : String} {m : Closure} {r : Value} (h : s.Binds table s' m r)
    (hm : D.method x m) : D.function (m.bind s.heap.frames.size)
  method {f : FunDecl} {scope : Chain} (h : f ∈ s.declaredMethods)
    (hscope : scope = s.scope ∨ scope = s.scope.push s.heap.frames.size) :
    D.method f.name ⟨f, scope, f.isInitializer⟩
  object {span : Span} {c : Class} {vs : List Value} (h : s.calling? = some (span, .cls c, vs))
    (haccepts : (Value.cls c).accepts vs.length = .ok ()) : D.object s.heap.objects.size c

/-- A method that is bound is one that a class has. -/
theorem State.Binds.method {s s' : State} {table : Distances} {m : Closure} {r : Value}
    (h : s.Binds table s' m r) (hs : s.Satisfies D) : ∃ x, D.method x m := by
  cases h with
  | @property _ _ _ id c hc hm _ _ _ =>
    have hobject : Value.Satisfies D (.object id c) :=
      hs.control _ (hc ▸ List.mem_cons_self)
    exact ⟨_, hobject.2.method? hm⟩
  | super _ habove hm _ _ =>
    have hclass : Value.Satisfies D (.cls _) :=
      hs.has (fun _ hv ↦ hv.satisfies) (.of_getAt habove)
    exact ⟨_, Class.Satisfies.method? hclass hm⟩
  | construct hcall hm _ _ _ =>
    have hclass : Value.Satisfies D (.cls _) := hs.control _ (values_of_calling? hcall).1
    exact ⟨_, Class.Satisfies.method? hclass hm⟩

/-- Where the values are as demanded, those that a step makes are too. -/
theorem State.Supplies.makers {s : State} {table : Distances} (h : s.Supplies D table)
    (hs : s.Satisfies D) : s.Makers (Value.Satisfies D) table where
  plain hv := hv.satisfies
  function hf := h.made hf
  method hm := by
    obtain ⟨x, hmethod⟩ := hm.method hs
    exact h.bound hm hmethod
  cls {c decls scope} hc := by
    obtain ⟨hdeclared, hscope⟩ := hc.declaredMethods
    have hmethods : ∀ m ∈ FunDecl.methods scope decls, D.method m.1 m.2 := fun m hm ↦ by
      obtain ⟨f, hf, rfl⟩ := List.mem_map.1 (List.mem_reverse.1 hm)
      exact h.method (hdeclared ▸ hf) hscope
    cases hc with
    | base _ => exact Class.Satisfies.base hmethods
    | @derived _ _ above _ _ hcontrol =>
      have habove : Value.Satisfies D (.cls above) :=
        hs.control _ (hcontrol ▸ List.mem_cons_self)
      exact Class.Satisfies.derived habove hmethods
  object hcall haccepts :=
    ⟨h.object hcall haccepts, hs.control _ (State.values_of_calling? hcall).1⟩

/-- Where all values are as demanded, and what a step makes is too, they still are after the
step. -/
theorem State.Satisfies.step {s s' : State} {table : Distances} (h : s.Satisfies D)
    (hs : s.Supplies D table) (hstep : s.Steps table s') : s'.Satisfies D :=
  State.All.step h (hs.makers h) hstep

/-! ### Moments -/

namespace Moment

/-- All values that there are at the moment are as demanded. -/
abbrev Satisfies (D : Demands) (M : Moment) : Prop := M.All (Value.Satisfies D)

/-- The given functions are as demanded, since nothing is demanded of them. -/
theorem satisfies_new : Session.new.heap.Satisfies D := .new fun _ hv ↦ hv.satisfies

/-- Where demands only get weaker as time goes on, and what each step makes is as demanded after it,
everything is as demanded at every moment. -/
theorem Reached.satisfies {D : Moment → Demands}
    (hD : ∀ M M' : Moment, M.Reached → M.Next M' → (D M).Le (D M'))
    (hsupplies : ∀ (s : Session) (t t' : State) (places : List Place),
      (running s t places).Reached → t.Steps s.distances t' →
        t.Supplies (D (running s t' (places ++ t.opened t'))) s.distances)
    {M : Moment} (h : M.Reached) : M.Satisfies (D M) := by
  induction h with
  | refl => exact satisfies_new
  | @tail N N' hN hnext ih =>
    have hle := hD N N' hN hnext
    have hall : N.Satisfies (D N') := ih.mono fun _ hv ↦ hv.mono hle
    refine hall.next hnext fun s t t' places hM hM' hstep ↦ ?_
    subst hM hM'
    exact (hsupplies s t t' places hN hstep).makers hall

end Moment

end LoxLang
