import LoxLang.Proofs.Initializers

/-!
# Fields

A field of an instance changes where it is assigned, and by no other step: so what it holds is what
was assigned last (`Moment.Reached.get?_iff`). An assignment waits for its value until it is there,
and it begins to wait when the object was found to be an instance (`Moment.Reached.checked`).
-/

namespace LoxLang

/-! ### Assignments that wait -/

/-- The assignment that waits, if that is the duty. -/
def Duty.assignment? : Duty → Option Assignment
  | .assign a => some a
  | .leave _ | .leaveCall .. => none

theorem Duty.assignment?_eq_some {duty : Duty} {a : Assignment} :
    duty.assignment? = some a ↔ duty = .assign a := by
  cases duty with
  | leave | leaveCall => exact ⟨nofun, nofun⟩
  | assign b =>
    exact ⟨fun h ↦ congrArg _ (Option.some.inj h), fun h ↦ congrArg _ (Duty.assign.inj h)⟩

/-- The assignments to fields that wait for their values, the innermost first. -/
def Control.assignments (c : Control) : List Assignment :=
  c.duties.filterMap Duty.assignment?

/-- An assignment waits just if it is a duty of the pending work. -/
theorem Control.mem_assignments {a : Assignment} {c : Control} :
    a ∈ c.assignments ↔ .assign a ∈ c.duties := by
  simp only [assignments, List.mem_filterMap, Duty.assignment?_eq_some, exists_eq_right]

/-! ### Steps -/

namespace State

variable {s s' : State} {table : Distances}

/-- Fields are not changed before a body is entered: a new instance has none. -/
theorem Prepares.fields {k k' : AfterValue} {callee : Value} {c : Closure} {h : Heap}
    (hbody : s.Prepares k callee c h k') (i : Nat) : h.fields i = s.heap.fields i := by
  cases hbody with
  | function => rfl
  | @initializer cls _ _ => exact Heap.fields_newObject s.heap cls i

/-- An assignment that waits has been waiting before, or its object has just been found to be an
instance. -/
theorem Steps.assignments (hstep : s.Steps table s') {a : Assignment}
    (ha : a ∈ s'.control.assignments) : a ∈ s.control.assignments ∨ ∃ c span e,
      s.control = .value (.object a.object c) (.target span a.name e a.next) ∧
        s' = { s with control := .evaluate e (.field a.object a.name a.next) } := by
  rw [Control.mem_assignments] at ha ⊢
  have hands {c : Control} {duties : List Duty} (hc : s.Hands c duties)
      (ha : .assign a ∈ c.duties) : .assign a ∈ duties := by
    rcases hc.duties with hduties | ⟨t, rfl⟩
    · exact hduties ▸ ha
    · cases ha
  cases hstep.moves with
  | goes hc | writes _ _ hc => exact .inl (hands hc ha)
  | enters _ _ hc => exact .inl ((List.mem_cons.1 (hands hc ha)).resolve_left nofun)
  | leaves hduties hc | returns hduties hc =>
    exact .inl (hduties ▸ List.mem_cons_of_mem _ (hands hc ha))
  | makes hcontrol | makesNamed hcontrol | declares hcontrol | inherits hcontrol =>
    rw [hcontrol]
    exact .inl ha
  | binds _ _ _ next | constructs _ _ _ next => exact .inl (next.duties ▸ ha)
  | calls _ _ hbody next =>
    refine .inl (next.duties ▸ hbody.duties ▸ ?_)
    exact (List.mem_cons.1 ha).resolve_left nofun
  | tooDeep => cases ha
  | @checks id c span x e k hcontrol =>
    rcases List.mem_cons.1 ha with heq | ha
    · cases heq
      exact .inr ⟨c, span, e, hcontrol, rfl⟩
    · rw [hcontrol]
      exact .inl ha
  | assigns hcontrol =>
    rw [hcontrol]
    exact .inl (List.mem_cons_of_mem _ ha)

theorem step_of_field {v : Value} {id : Nat} {name : String} {k : AfterValue}
    (hcontrol : s.control = .value v (.field id name k)) (table : Distances) :
    s.step table =
      .moved { s with control := .value v k, heap := s.heap.setField id name v } := by
  unfold step
  rw [hcontrol]
  rfl

/-- A field changes only where it is assigned. -/
theorem Steps.get?_fields (hstep : s.Steps table s') (i : Nat) (x : String)
    (h : ∀ v k, s.control ≠ .value v (.field i x k)) :
    (s'.heap.fields i).get? x = (s.heap.fields i).get? x := by
  cases hstep.moves with
  | calls _ _ hbody | tooDeep _ _ hbody => exact congrArg (Table.get? · x) (hbody.fields i)
  | @constructs _ c => exact congrArg (Table.get? · x) (Heap.fields_newObject s.heap c i)
  | @assigns v j y k hcontrol =>
    by_cases hj : j < s.heap.objects.size
    · refine (Heap.get?_fields_setField hj y v i x).trans (if_neg ?_)
      rintro ⟨rfl, rfl⟩
      exact h v k hcontrol
    · exact congrArg (fun H : Heap ↦ (H.fields i).get? x)
        (Heap.setField_of_size_le (Nat.le_of_not_lt hj) y v)
  | _ => rfl

end State

/-! ### Moments -/

namespace Moment

/-- The assignments to fields that wait for their values at the moment. -/
def assignments : Moment → List Assignment
  | idle _ _ => []
  | running _ t _ => t.control.assignments

/-- The moments follow one another, and the assignment waits at the second. -/
def Awaits (a : Assignment) (M M' : Moment) : Prop := M.Next M' ∧ a ∈ M'.assignments

/-- Before this moment the object of the assignment was found to be an instance; then the evaluation
of the value began, and the assignment has been waiting for it ever since. -/
inductive Checked (a : Assignment) (M : Moment) : Prop
  | mk {s : Session} {t t' : State} {places : List Place} {c : Class} {span : Span} {e : Expr}
      (hreached : (running s t places).Reached)
      (hcontrol : t.control = .value (.object a.object c) (.target span a.name e a.next))
      (hstep : t.step s.distances = .moved t')
      (ht' : t'.control = .evaluate e (.field a.object a.name a.next))
      (hwaits : Relation.ReflTransGen (Awaits a) (running s t' (places ++ t.opened t')) M)

/-- The field gets the value between the two moments. -/
inductive Assigns (id : Nat) (name : String) (v : Value) : Moment → Moment → Prop
  | mk {s : Session} {t t' : State} {places : List Place} {k : AfterValue}
      (hcontrol : t.control = .value v (.field id name k)) (hstep : t.Steps s.distances t') :
      Assigns id name v (running s t places) (running s t' (places ++ t.opened t'))

/-- The moments follow one another, and the field gets no value in between. -/
def Spares (id : Nat) (name : String) (M M' : Moment) : Prop :=
  M.Next M' ∧ ∀ v, ¬ Assigns id name v M M'

/-- The value is what the field got last before this moment. -/
def LastAssigned (M : Moment) (id : Nat) (name : String) (v : Value) : Prop :=
  ∃ M₀ M₁, M₀.Reached ∧ Assigns id name v M₀ M₁ ∧ Relation.ReflTransGen (Spares id name) M₁ M

variable {M M' : Moment} {id : Nat} {name : String} {v : Value}

/-- Every assignment that waits has been waiting since its object was checked. -/
theorem Reached.checked (h : M.Reached) : ∀ a ∈ M.assignments, M.Checked a := by
  induction h with
  | refl => exact nofun
  | @tail N N' hN hnext ih =>
    intro a ha
    have hwaits (h : N.Checked a) : N'.Checked a := by
      obtain ⟨hreached, hcontrol, hstep, ht', hwaits⟩ := h
      exact ⟨hreached, hcontrol, hstep, ht', hwaits.tail ⟨hnext, ha⟩⟩
    cases hnext with
    | refuse | accept | leave => exact absurd ha List.not_mem_nil
    | @step s t t' places hstep =>
      rcases hstep.assignments ha with ha | ⟨c, span, e, hcontrol, ht'⟩
      · exact hwaits (ih a ha)
      · have hmoved : t.step s.distances = .moved t' := by
          unfold State.step
          rw [hcontrol, ht']
          rfl
        exact ⟨hN, hcontrol, hmoved, ht' ▸ rfl, .refl⟩

/-- What an assignment waits for goes to an instance that there is. -/
theorem Checked.lt_size {a : Assignment} (h : M.Checked a) : a.object < M.heap.objects.size := by
  obtain ⟨hreached, hcontrol, hstep, -, hwaits⟩ := h
  have hvalue := State.All.control hreached.demands
  rw [hcontrol] at hvalue
  have hlater : Later _ M := Relation.ReflTransGen.mono (fun _ _ h ↦ h.1) _ _ hwaits
  exact Nat.lt_of_lt_of_le (hvalue _ List.mem_cons_self).1
    (Later.keeps (hlater.head (.step (.moved hstep))) hreached).1.objects

/-- An assignment whose value is there is waiting still. -/
theorem mem_assignments {s : Session} {t : State} {places : List Place} {k : AfterValue}
    (hcontrol : t.control = .value v (.field id name k)) :
    ⟨id, name, k⟩ ∈ (running s t places).assignments := by
  refine Control.mem_assignments.2 ?_
  rw [hcontrol]
  exact List.mem_cons_self

/-- An assigned field has the value. -/
theorem Assigns.get? (hM : M.Reached) (h : Assigns id name v M M') :
    (M'.heap.fields id).get? name = some v := by
  obtain @⟨s, t, t', places, k, hcontrol, hstep⟩ := h
  have hchecked := hM.checked _ (mem_assignments hcontrol)
  obtain rfl := hstep.eq_of_moved (State.step_of_field hcontrol s.distances)
  refine (Heap.get?_fields_setField hchecked.lt_size name v id name).trans ?_
  exact if_pos ⟨rfl, rfl⟩

theorem Spares.get? (h : Spares id name M M') :
    (M'.heap.fields id).get? name = (M.heap.fields id).get? name := by
  obtain ⟨hnext, hspares⟩ := h
  cases hnext with
  | @refuse s s' _ text faults hload | @accept s s' _ text p hload =>
    exact congrArg (fun H : Heap ↦ (H.fields id).get? name) (Session.heap_of_load hload)
  | step hstep => exact hstep.get?_fields id name fun v k hcontrol ↦ hspares v ⟨hcontrol, hstep⟩
  | leave => rfl

theorem LastAssigned.get? (h : M.LastAssigned id name v) :
    (M.heap.fields id).get? name = some v := by
  obtain ⟨M₀, M₁, h₀, hassigns, hspares⟩ := h
  induction hspares with
  | refl => exact hassigns.get? h₀
  | tail _ hspares ih => exact hspares.get?.trans ih

/-- A field has the value that it got last. -/
theorem Reached.get?_iff (h : M.Reached) :
    (M.heap.fields id).get? name = some v ↔ M.LastAssigned id name v := by
  refine ⟨fun hv ↦ ?_, LastAssigned.get?⟩
  induction h with
  | refl => cases hv
  | @tail N N' hN hnext ih =>
    by_cases hassigned : ∃ w, Assigns id name w N N'
    · obtain ⟨w, hw⟩ := hassigned
      obtain rfl : w = v := Option.some.inj ((hw.get? hN).symm.trans hv)
      exact ⟨N, N', hN, hw, .refl⟩
    · have hspares : Spares id name N N' := ⟨hnext, not_exists.1 hassigned⟩
      obtain ⟨M₀, M₁, h₀, h₁, hlater⟩ := ih (hspares.get?.symm.trans hv)
      exact ⟨M₀, M₁, h₀, h₁, hlater.tail hspares⟩

end Moment

end LoxLang
