import LoxLang.Proofs.Transitions

/-!
# The depth of calls

The machine counts the function bodies that are being executed. The count agrees with what is
pending, where every such body has left its caller behind, and it never exceeds the limit
(`State.Reaches.counts`).
-/

namespace LoxLang

/-- How many calls are still to be ended. -/
def Duty.calls : List Duty → Nat
  | [] => 0
  | .leaveCall .. :: duties => calls duties + 1
  | .leave _ :: duties | .assign _ :: duties => calls duties

/-- How many function bodies are being executed: one for each call that is still to be ended. When
the program is stuck, none are any more. -/
def Control.bodies? : Control → Option Nat
  | .execute _ next | .ended _ next => some (Duty.calls next.duties)
  | .evaluate _ next | .value _ next => some (Duty.calls next.duties)
  | .stuck _ => none

theorem Control.bodies?_eq (c : Control) :
    c.bodies? = some (Duty.calls c.duties) ∨ ∃ t, c = .stuck t := by
  cases c with
  | execute | ended | evaluate | value => exact .inl rfl
  | stuck t => exact .inr ⟨t, rfl⟩

/-- The depth is the number of function bodies that are being executed, and within the limit. -/
structure State.Counts (s : State) : Prop where
  limit : s.depth ≤ callLimit
  bodies : ∀ n, s.control.bodies? = some n → s.depth = n

namespace State.Counts

variable {s : State} {table : Distances}

/-- The duties of what is done next say how deep it is. -/
theorem of_duties (limit : s.depth ≤ callLimit)
    (h : s.depth = Duty.calls s.control.duties) : s.Counts := by
  refine ⟨limit, fun n hn ↦ ?_⟩
  rcases s.control.bodies?_eq with hbodies | ⟨t, ht⟩
  · exact h.trans (Option.some.inj (hbodies.symm.trans hn))
  · rw [ht] at hn
    cases hn

theorem of_hands {s₀ : State} {duties : List Duty} (limit : s.depth ≤ callLimit)
    (hc : s₀.Hands s.control duties) (h : s.depth = Duty.calls duties) : s.Counts := by
  rcases hc.duties with hduties | ⟨t, ht⟩
  · exact of_duties limit (hduties ▸ h)
  · refine ⟨limit, fun n hn ↦ ?_⟩
    rw [ht] at hn
    cases hn

theorem steps (h : s.Counts) {s' : State} (hstep : s.Steps table s') : s'.Counts := by
  obtain ⟨limit, bodies⟩ := h
  have hdepth : s.depth = Duty.calls s.control.duties :=
    bodies _ (s.control.bodies?_eq.resolve_right hstep.not_isStuck)
  cases hstep.moves with
  | goes hc | writes _ _ hc => exact of_hands limit hc hdepth
  | enters _ _ hc => exact of_hands limit hc hdepth
  | leaves hduties hc => exact of_hands limit hc (by rw [hdepth, hduties]; rfl)
  | returns hduties hc =>
    refine of_hands (Nat.le_trans (Nat.sub_le _ _) limit) hc (Nat.sub_eq_of_eq_add ?_)
    rw [hdepth, hduties, Duty.calls]
  | makes hcontrol | makesNamed hcontrol | declares hcontrol | inherits hcontrol
  | checks hcontrol | assigns hcontrol =>
    refine of_duties limit (hdepth.trans ?_)
    rw [hcontrol]
    rfl
  | binds _ _ _ next | constructs _ _ _ next =>
    refine of_duties limit (hdepth.trans ?_)
    rw [← next.duties]
    rfl
  | calls _ _ hbody next hlimit =>
    refine of_duties hlimit (congrArg (· + 1) (hdepth.trans ?_))
    rw [← next.duties, ← hbody.duties]
  | tooDeep => exact ⟨limit, nofun⟩

theorem start (heap : Heap) (p : Program) : (State.start heap p).Counts :=
  ⟨Nat.zero_le _, fun _ hn ↦ Option.some.inj hn⟩

end State.Counts

/-- Wherever a run leads to, the depth is the number of function bodies that are being executed, and
within the limit. -/
theorem State.Reaches.counts {table : Distances} {heap : Heap} {p : Program}
    {places places' : List Place} {t : State}
    (h : (State.start heap p).Reaches table places t places') : t.Counts := by
  induction h with
  | refl => exact .start heap p
  | step _ hstep ih => exact ih.steps hstep

end LoxLang
