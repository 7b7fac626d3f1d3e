import LoxLang.Proofs.Receivers

/-!
# What a state contains

A state contains values in its heap and in its pending work. A step takes the values that it handles
from there, except for plain ones and for the few that it makes: functions, classes and instances.
So what holds for plain values (`Value.Plain`) and for what each step makes (`State.Makers`) holds
for all values that there are (`State.All.step`, `Moment.All.next`).
-/

namespace LoxLang

variable {p q : Value → Prop}

/-! ### Values -/

/-- All values of the table have the property. -/
def Table.All (p : Value → Prop) (t : Table) : Prop := ∀ x v, t.get? x = some v → p v

namespace Table.All

theorem nil : Table.All p [] := nofun

/-- A table gets a value that has the property. -/
theorem set {t : Table} (h : t.All p) {v : Value} (hv : p v) (x : String) : (t.set x v).All p := by
  intro y w hy
  by_cases hxy : y = x
  · subst hxy
    rw [Table.get?_set_self] at hy
    exact Option.some.inj hy ▸ hv
  · rw [Table.get?_set_of_ne hxy] at hy
    exact h y w hy

theorem singleton {v : Value} (hv : p v) (x : String) : Table.All p [(x, v)] := nil.set hv x

/-- The variables of a call hold its arguments. -/
theorem argumentTable {vs : List Value} (hvs : ∀ v ∈ vs, p v) (params : List Name) :
    Table.All p (LoxLang.argumentTable params vs) := by
  suffices h : ∀ (bindings : List (Name × Value)) (t : Table), (∀ b ∈ bindings, p b.2) →
      t.All p → Table.All p (bindings.foldl (fun t b ↦ t.set b.1.text b.2) t) from
    h _ _ (fun b hb ↦ hvs _ (List.of_mem_zip hb).2) nil
  intro bindings
  induction bindings with
  | nil => exact fun t _ ht ↦ ht
  | cons b rest ih =>
    intro t hbindings ht
    obtain ⟨hb, hrest⟩ := List.forall_mem_cons.1 hbindings
    exact ih _ hrest (ht.set hb _)

end Table.All

/-! ### Heaps -/

/-- A new instance has no fields, and neither has one that there is not. -/
theorem Heap.fields_newObject (h : Heap) (c : Class) (i : Nat) :
    (h.newObject c).2.fields i = h.fields i := by
  rcases Nat.lt_trichotomy i h.objects.size with hlt | rfl | hlt
  · simp [Heap.fields, Heap.newObject, Array.getElem?_push_lt, hlt]
  · simp [Heap.fields, Heap.newObject]
  · have hpush : (h.objects.push []).size ≤ i := by
      rw [Array.size_push]
      exact hlt
    simp only [Heap.fields, Heap.newObject, Array.getElem?_eq_none hpush,
      Array.getElem?_eq_none (Nat.le_of_lt hlt)]

/-- All variables and fields have the property. -/
structure Heap.All (p : Value → Prop) (h : Heap) : Prop where
  frame (f : FrameId) : (h.frame f).All p
  fields (i : Nat) : (h.fields i).All p

namespace Heap.All

variable {h : Heap}

/-- A variable gets a value that has the property. -/
theorem setIn (H : h.All p) (f : FrameId) (x : String) {v : Value} (hv : p v) :
    (h.setIn f x v).All p := by
  by_cases hf : f < h.frames.size
  · refine ⟨fun g y w hw ↦ ?_, H.fields⟩
    rw [get?_frame_setIn hf] at hw
    split at hw
    · exact Option.some.inj hw ▸ hv
    · exact H.frame g y w hw
  · rwa [setIn_of_size_le (Nat.le_of_not_lt hf)]

/-- A field gets a value that has the property. -/
theorem setField (H : h.All p) (i : Nat) (x : String) {v : Value} (hv : p v) :
    (h.setField i x v).All p := by
  by_cases hi : i < h.objects.size
  · refine ⟨H.frame, fun j y w hw ↦ ?_⟩
    rw [get?_fields_setField hi] at hw
    split at hw
    · exact Option.some.inj hw ▸ hv
    · exact H.fields j y w hw
  · rwa [setField_of_size_le (Nat.le_of_not_lt hi)]

/-- A new frame holds only values that have the property. -/
theorem child (H : h.All p) (c : Chain) {t : Table} (ht : t.All p) : (h.child c t).2.All p := by
  refine ⟨fun f ↦ ?_, H.fields⟩
  rcases Nat.lt_trichotomy f h.frames.size with hlt | rfl | hlt
  · rw [frame_child_of_lt hlt]
    exact H.frame f
  · exact (frame_child_self h c t).symm ▸ ht
  · have hpush : (h.frames.push t).size ≤ f := by
      rw [Array.size_push]
      exact hlt
    rw [Heap.frame, Heap.child, Array.getElem?_eq_none hpush]
    exact .nil

/-- A new instance holds nothing. -/
theorem newObject (H : h.All p) (c : Class) : (h.newObject c).2.All p :=
  ⟨H.frame, fun i ↦ (fields_newObject h c i).symm ▸ H.fields i⟩

theorem newFunction (H : h.All p) (c : Closure) : (h.newFunction c).2.All p := ⟨H.frame, H.fields⟩

/-- A method is bound to a receiver that has the property. -/
theorem bindMethod (H : h.All p) (c : Closure) {this : Value} (hthis : p this) :
    (h.bindMethod c this).2.All p :=
  H.child c.scope (.singleton hthis "this")

/-- A class is made, perhaps with a frame that keeps its superclass. -/
theorem newClass (H : h.All p) (scope : Chain) (x : String) {above : Option Class}
    (habove : ∀ c ∈ above, p (.cls c)) (methods : List FunDecl) :
    (h.newClass scope x above methods).2.All p := by
  cases above with
  | none => exact ⟨H.frame, H.fields⟩
  | some c =>
    have hframe := H.child scope (.singleton (habove c rfl) "super")
    exact ⟨hframe.frame, hframe.fields⟩

/-- A session begins with the given functions. -/
theorem new (hplain : ∀ v : Value, v.Plain → p v) : Session.new.heap.All p := by
  have hempty : Heap.empty.All p := by
    refine ⟨fun f ↦ ?_, fun i ↦ ?_⟩
    · have hnil : Heap.empty.frame f = [] := by
        cases f <;> rfl
      rw [hnil]
      exact .nil
    · exact .nil
  exact (hempty.setIn 0 "clock" (hplain (.native .clock) trivial)).setIn 0 "input"
    (hplain (.native .input) trivial)

end Heap.All

/-! ### States -/

/-- All values that the state contains have the property. -/
structure State.All (p : Value → Prop) (s : State) : Prop where
  heap : s.heap.All p
  control : ∀ v ∈ s.control.values, p v

/-- Values may have a weaker property. -/
theorem Heap.All.mono {h : Heap} (H : h.All p) (hpq : ∀ v, p v → q v) : h.All q :=
  ⟨fun f x v hv ↦ hpq v (H.frame f x v hv), fun i x v hv ↦ hpq v (H.fields i x v hv)⟩

theorem State.All.mono {s : State} (h : s.All p) (hpq : ∀ v, p v → q v) : s.All q :=
  ⟨h.heap.mono hpq, fun v hv ↦ hpq v (h.control v hv)⟩

/-! ### What a step makes -/

/-- The functions that methods become in a scope, the latest first. -/
def FunDecl.methods (scope : Chain) (decls : List FunDecl) : List (String × Closure) :=
  (decls.map fun f ↦ (f.name, (⟨f, scope, f.isInitializer⟩ : Closure))).reverse

/-- The next step makes a class, from these methods in this scope. With a superclass they stand in a
frame of their own. -/
inductive State.Declares (s : State) : Class → List FunDecl → Chain → Prop
  | base {span : Span} {name : String} {methods : List FunDecl} {l : AfterStmt}
      (hcontrol : s.control = .execute (.classDecl span name none methods) l) :
      Declares s (.mk s.heap.nextClass name none (FunDecl.methods s.scope methods)) methods s.scope
  | derived {span : Span} {name : String} {above : Class} {methods : List FunDecl} {l : AfterStmt}
      (hcontrol : s.control = .value (.cls above) (.inherit span name methods l)) :
      Declares s (.mk s.heap.nextClass name (some above)
        (FunDecl.methods (s.scope.push s.heap.frames.size) methods)) methods
        (s.scope.push s.heap.frames.size)

/-- Plain values have the property, and so has what the next step makes. -/
structure State.Makers (p : Value → Prop) (table : Distances) (s : State) : Prop where
  plain {v : Value} (h : v.Plain) : p v
  function {f : FunDecl} (h : s.Makes f) : p (.function s.heap.nextFunction ⟨f, s.scope, false⟩)
  method {s' : State} {m : Closure} {r : Value} (h : s.Binds table s' m r) :
    p (.function s.heap.nextFunction (m.bind s.heap.frames.size))
  cls {c : Class} {methods : List FunDecl} {scope : Chain} (h : s.Declares c methods scope) :
    p (.cls c)
  object {span : Span} {c : Class} {vs : List Value} (h : s.calling? = some (span, .cls c, vs))
    (haccepts : (Value.cls c).accepts vs.length = .ok ()) : p (.object s.heap.objects.size c)

/-! ### Steps -/

namespace State

variable {s s' : State} {table : Distances}

/-- What a state has is plain, or it has the property that all values of the state have. -/
theorem All.has (h : s.All p) (hplain : ∀ v : Value, v.Plain → p v) {v : Value} (hv : s.Has v) :
    p v := by
  cases hv with
  | plain hv => exact hplain v hv
  | control hv => exact h.control v hv
  | frame hv => exact h.heap.frame _ _ v hv
  | field hv => exact h.heap.fields _ _ v hv

/-- What is made before a body is entered: for a class, the new instance. -/
theorem Prepares.all {k k' : AfterValue} {callee : Value} {c : Closure} {h : Heap}
    (hbody : s.Prepares k callee c h k') (H : s.heap.All p)
    (hobject : ∀ cls, callee = .cls cls → p (.object s.heap.objects.size cls)) :
    h.All p ∧ ((∀ v ∈ k.values, p v) → ∀ v ∈ k'.values, p v) := by
  cases hbody with
  | function => exact ⟨H, id⟩
  | @initializer cls i _ =>
    exact ⟨(H.newObject cls).bindMethod i (hobject cls rfl),
      fun next ↦ List.forall_mem_cons.2 ⟨hobject cls rfl, next⟩⟩

theorem All.declareClass (H : s.heap.All p) {l : AfterStmt} (next : ∀ v ∈ l.values, p v)
    (x : String) {above : Option Class} (habove : ∀ c ∈ above, p (.cls c))
    {methods : List FunDecl} (hc : p (s.heap.newClass s.scope x above methods).1) :
    (s.declareClass x above methods l).All p :=
  ⟨(H.newClass s.scope x habove methods).setIn s.scope.frame x hc, next⟩

/-- A property of all values that there are, and of those that a step makes, is one of all values
after the step. -/
theorem All.step (h : s.All p) (hs : s.Makers p table) (hstep : s.Steps table s') : s'.All p := by
  have has {v : Value} (hv : s.Has v) : p v := h.has (fun _ ↦ hs.plain) hv
  have hvalues {c : Control} (hc : s.control = c) : ∀ v ∈ c.values, p v := hc ▸ h.control
  cases hstep.moves with
  | goes hc | leaves _ hc | returns _ hc => exact ⟨h.heap, fun v hv ↦ has (hc.values v hv)⟩
  | writes _ hv hc f => exact ⟨h.heap.setIn f _ (has hv), fun v hv ↦ has (hc.values v hv)⟩
  | enters _ _ hc => exact ⟨h.heap.child s.scope .nil, fun v hv ↦ has (hc.values v hv)⟩
  | @makes f k hcontrol =>
    exact ⟨h.heap.newFunction ⟨f, s.scope, false⟩,
      List.forall_mem_cons.2 ⟨hs.function (.inl ⟨k, hcontrol⟩), hvalues hcontrol⟩⟩
  | @makesNamed f l hcontrol =>
    have next : ∀ v ∈ l.values, p v := hvalues hcontrol
    exact ⟨(h.heap.newFunction ⟨f, s.scope, false⟩).setIn _ f.name
      (hs.function (.inr ⟨l, hcontrol⟩)), next⟩
  | @declares span x methods l hcontrol =>
    have hnil : (s.bindName x .nil l).heap.All p := h.heap.setIn _ x (hs.plain trivial)
    have hnone : ∀ c ∈ (none : Option Class), p (.cls c) := nofun
    exact .declareClass (s := s.bindName x .nil l) hnil (hvalues hcontrol) x hnone
      (hs.cls (.base hcontrol))
  | @inherits span x above methods l hcontrol =>
    obtain ⟨habove, next⟩ := List.forall_mem_cons.1 (hvalues hcontrol)
    refine .declareClass h.heap next x (fun c hc ↦ ?_) (hs.cls (.derived hcontrol))
    obtain rfl := Option.some.inj hc
    exact habove
  | @binds m id c k hbinds _ hobject next =>
    have H := h.heap.bindMethod m (has hobject)
    exact ⟨⟨H.frame, H.fields⟩,
      List.forall_mem_cons.2 ⟨hs.method hbinds, fun v hv ↦ has (next.values v hv)⟩⟩
  | @calls span callee vs k k' c h' hcall haccepts hbody next =>
    obtain ⟨H, hnext⟩ := hbody.all h.heap fun cls hcls ↦ hs.object (hcls ▸ hcall) (hcls ▸ haccepts)
    have hvs (v : Value) (hv : v ∈ vs) : p v := h.control v ((values_of_calling? hcall).2 v hv)
    exact ⟨H.child c.scope (.argumentTable hvs _), hnext fun v hv ↦ has (next.values v hv)⟩
  | tooDeep hcall haccepts hbody =>
    exact ⟨(hbody.all h.heap fun cls hcls ↦ hs.object (hcls ▸ hcall) (hcls ▸ haccepts)).1, nofun⟩
  | @constructs span c vs k hcall haccepts _ next =>
    exact ⟨h.heap.newObject c, List.forall_mem_cons.2
      ⟨hs.object hcall haccepts, fun v hv ↦ has (next.values v hv)⟩⟩
  | checks hcontrol => exact ⟨h.heap, (List.forall_mem_cons.1 (hvalues hcontrol)).2⟩
  | @assigns v id x k hcontrol =>
    have hvalue : ∀ w ∈ v :: k.values, p w := hvalues hcontrol
    exact ⟨h.heap.setField id x (hvalue v List.mem_cons_self), hvalue⟩

end State

/-! ### Moments -/

namespace Moment

/-- All values that there are at the moment have the property. -/
def All (p : Value → Prop) : Moment → Prop
  | idle s _ => s.heap.All p
  | running _ t _ => t.All p

theorem All.mono {M : Moment} (h : M.All p) (hpq : ∀ v, p v → q v) : M.All q := by
  cases M with
  | idle s places => exact Heap.All.mono h hpq
  | running s t places => exact State.All.mono h hpq

/-- A property of all values that there are is one of all values at the next moment, where it is one
of what is made by a step. -/
theorem All.next {M M' : Moment} (h : M.All p) (hnext : M.Next M')
    (hs : ∀ (s : Session) (t t' : State) (places : List Place), M = running s t places →
      M' = running s t' (places ++ t.opened t') → t.Steps s.distances t' →
        t.Makers p s.distances) : M'.All p := by
  cases hnext with
  | @refuse s s' places text faults hload =>
    have hheap := Session.heap_of_load hload
    show s'.heap.All p
    exact hheap ▸ h
  | @accept s s' places text program hload =>
    have hheap := Session.heap_of_load hload
    exact ⟨hheap ▸ h, nofun⟩
  | @step s t t' places hstep => exact State.All.step h (hs s t t' places rfl rfl hstep) hstep
  | leave => exact State.All.heap h

end Moment

end LoxLang
