import LoxLang.Proofs.Transitions

/-!
# What stops a program

A step of the machine may lead to a fault. Those that it can lead to come up only while a program
runs (`State.isStatic_of_run`), and only a step that makes a call can lead to the fault of calls
that are nested too deep. It does so exactly if what is called accepts its arguments and has a body,
and the limit is reached (`State.tooDeep_iff`).
-/

namespace LoxLang

namespace State

variable {s s' : State} {table : Distances} {f : Fault}

/-! ### Steps -/

/-- A step that makes a call makes it, unless what is called cannot be called at all. -/
theorem step_of_calling? (table : Distances) {span : Span} {callee : Value} {arguments : List Value}
    (h : s.calling? = some (span, callee, arguments)) :
    ∃ next, s.step table = s.call span callee arguments next ∨
      ∃ cause, callee.callable = .error cause ∧ s.step table = .moved (s.fault span cause) := by
  unfold calling? at h
  unfold State.step
  split at h
  · rename_i v span' next hcontrol
    obtain ⟨rfl, rfl, rfl⟩ : span' = span ∧ v = callee ∧ [] = arguments := by simpa using h
    refine ⟨next, ?_⟩
    rw [hcontrol]
    simp only [State.accept]
    cases hcallable : v.callable with
    | error cause => exact .inr ⟨cause, rfl, rfl⟩
    | ok u => exact .inl rfl
  · rename_i v span' callee' known next hcontrol
    obtain ⟨rfl, rfl, rfl⟩ :
        span' = span ∧ callee' = callee ∧ (v :: known).reverse = arguments := by
      simpa using h
    refine ⟨next, .inl ?_⟩
    rw [hcontrol]
    rfl
  · cases h

/-- The fault of a call at this place that is nested too deep. -/
def TooDeep (s : State) (span : Span) (callee : Value) (arguments : List Value) (f : Fault) :
    Prop :=
  f = ⟨.callsTooDeep callLimit, span⟩ ∧ callLimit ≤ s.depth ∧
    callee.accepts arguments.length = .ok () ∧ callee.hasBody = true

/-- A call that is nested too deep is not made, if its callee has a body. -/
theorem stuck_of_call (span : Span) {callee : Value} {arguments : List Value}
    (next : AfterValue) (hlimit : callLimit ≤ s.depth)
    (haccepts : callee.accepts arguments.length = .ok ()) (hbody : callee.hasBody = true) :
    ∃ s', s.call span callee arguments next = .moved s' ∧
      s'.control = .stuck (.fault ⟨.callsTooDeep callLimit, span⟩) := by
  unfold call
  rw [haccepts]
  cases callee with
  | function id closure =>
    refine ⟨_, rfl, ?_⟩
    unfold enter
    rw [if_pos hlimit]
    rfl
  | cls c =>
    obtain ⟨initializer, hinitializer⟩ := Option.isSome_iff_exists.1 hbody
    refine ⟨_, rfl, ?_⟩
    unfold construct
    simp only [hinitializer]
    unfold enter
    rw [if_pos hlimit]
    rfl
  | _ => cases hbody

/-- A step leads to an ordinary fault, or to that of a call that is nested too deep, if to any. -/
theorem Steps.fault (hstep : s.Steps table s') (hf : s'.control = .stuck (.fault f)) :
    f.cause.IsOrdinary ∨ ∃ span callee arguments,
      s.calling? = some (span, callee, arguments) ∧ s.TooDeep span callee arguments f := by
  cases hstep.moves with
  | goes hc | writes _ _ hc | enters _ _ hc | leaves _ hc | returns _ hc =>
    exact .inl (hc.ordinary f hf)
  | @tooDeep span callee arguments _ _ _ _ hcall haccepts hbody hdepth =>
    cases hf
    refine .inr ⟨span, callee, arguments, hcall, rfl, hdepth, haccepts, ?_⟩
    cases hbody with
    | function => rfl
    | initializer hi => exact Option.isSome_of_eq_some hi
  | _ => cases hf

/-- The fault of calls that are nested too deep comes up at the call of a function or a method, or
of a class with an initializer, that accepts its arguments when the limit is reached, and nowhere
else. -/
theorem tooDeep_iff (hdepth : s.depth ≤ callLimit) {limit : Nat} {span : Span} :
    (∃ s', s.Steps table s' ∧ s'.control = .stuck (.fault ⟨.callsTooDeep limit, span⟩)) ↔
      limit = callLimit ∧ s.depth = callLimit ∧ ∃ callee arguments,
        s.calling? = some (span, callee, arguments) ∧
        callee.accepts arguments.length = .ok () ∧ callee.hasBody = true := by
  constructor
  · rintro ⟨s', hstep, hs'⟩
    rcases hstep.fault hs' with
      ⟨-, hordinary⟩ | ⟨span', callee, arguments, hcall, hf, hlimit, haccepts, hbody⟩
    · cases hordinary
    · obtain ⟨rfl, rfl⟩ : limit = callLimit ∧ span = span' := by
        simpa using hf
      exact ⟨rfl, Nat.le_antisymm hdepth hlimit, callee, arguments, hcall, haccepts, hbody⟩
  · rintro ⟨rfl, hlimit, callee, arguments, hcall, haccepts, hbody⟩
    obtain ⟨next, hstep | ⟨cause, hcause, -⟩⟩ := step_of_calling? table hcall
    · obtain ⟨s', hs', hstuck⟩ := stuck_of_call span next (Nat.le_of_eq hlimit.symm)
        haccepts hbody
      exact ⟨s', .moved (hstep.trans hs'), hstuck⟩
    · rw [Value.callable_of_accepts haccepts] at hcause
      cases hcause

/-! ### Runs -/

/-- No run ends with a fault that could have been found in the text. -/
theorem isStatic_of_run (h : ¬ s.IsStuck) (fuel : Nat) (w : World)
    (hf : (s.run table fuel w).2.2 = some (.stuck (.fault f))) : f.isStatic = false := by
  have late {s s' : State} (hstep : s.Steps table s') (f : Fault)
      (hf : s'.control = .stuck (.fault f)) : f.isStatic = false := by
    rcases hstep.fault hf with hordinary | ⟨span, callee, arguments, -, rfl, -⟩
    · exact hordinary.1
    · rfl
  have hs (f : Fault) (hf : s.control = .stuck (.fault f)) : f.isStatic = false :=
    absurd ⟨_, hf⟩ h
  clear h
  induction fuel generalizing s w with
  | zero => cases hf
  | succ fuel ih =>
    unfold run at hf
    split at hf
    · rename_i s' hs'
      exact ih w hf (late (.moved hs'))
    · rename_i request resume hwaiting
      exact ih _ hf (late (.replied hwaiting rfl))
    · rename_i ending heap hstopped
      obtain rfl := Option.some.inj hf
      exact hs f ((of_step_eq_stopped hstopped).2 _ rfl)

end State

end LoxLang
