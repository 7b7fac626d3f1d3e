import LoxLang.Proofs.Moments

/-!
# The function that is being executed

The innermost function that is being executed is the one that the pending work is to leave next
(`State.callee?`). The scope of a state was opened inside of the scope of that function, by its call
and by the blocks and loops that were entered since (`Moment.Reached.nested`).
-/

namespace LoxLang

/-! ### Scopes inside of others -/

/-- What opened the scope of a frame, unless it is the first. -/
def placeOf? (places : List Place) : FrameId → Option Place
  | 0 => none
  | f + 1 => places[f]?

theorem Plan.place?_eq (P : Plan) (f : FrameId) : P.place? f = placeOf? P.places f := by
  cases f with
  | zero => rfl
  | succ f => exact (List.getElem?_map ..).symm

theorem placeOf?_mono {places places' : List Place} (h : places <+: places') {f : FrameId}
    {place : Place} (hf : placeOf? places f = some place) : placeOf? places' f = some place := by
  cases f with
  | zero => cases hf
  | succ f =>
    obtain ⟨rest, rfl⟩ := h
    have hlt := (List.getElem?_eq_some_iff.1 hf).1
    exact (List.getElem?_append_left hlt).trans hf

/-- The new frame has the place that was added. -/
theorem placeOf?_append (places : List Place) (place : Place) (rest : List Place) :
    placeOf? (places ++ place :: rest) (places.length + 1) = some place := by
  simp [placeOf?]

/-- The scopes that were opened inside of the base, one in the other. None of them is that of a
receiver. -/
inductive Chain.Inside (places : List Place) (base : Chain) : Chain → Prop
  | here : Inside places base base
  | push {c : Chain} (h : Inside places base c) {f : FrameId} {place : Place}
      (hf : placeOf? places f = some place) (hplace : ∀ span, place ≠ .receiver span) :
      Inside places base (c.push f)

namespace Chain.Inside

variable {places places' : List Place} {base c c' : Chain}

theorem trans (h : Inside places base c) (h' : Inside places c c') : Inside places base c' := by
  induction h' with
  | here => exact h
  | push _ hf hplace ih => exact ih.push hf hplace

theorem mono (h : Inside places base c) (hplaces : places <+: places') :
    Inside places' base c := by
  induction h with
  | here => exact .here
  | push _ hf hplace ih => exact ih.push (placeOf?_mono hplaces hf) hplace

/-- Inside of a base, there are some frames before those of the base, none of them a receiver's. -/
theorem exists_frames (h : Inside places base c) :
    ∃ inner, c.frames = inner ++ base.frames ∧
      ∀ f ∈ inner, ∀ span, placeOf? places f ≠ some (.receiver span) := by
  induction h with
  | here => exact ⟨[], rfl, nofun⟩
  | @push c h f place hf hplace ih =>
    obtain ⟨inner, hframes, hinner⟩ := ih
    refine ⟨f :: inner, congrArg (f :: ·) hframes, List.forall_mem_cons.2 ⟨?_, hinner⟩⟩
    exact fun span hspan ↦ hplace span (Option.some.inj (hf.symm.trans hspan))

end Chain.Inside

/-! ### The callee -/

/-- The function whose call is to be ended, if that is the duty. -/
def Duty.callee? : Duty → Option Closure
  | .leaveCall _ c => some c
  | .leave _ | .assign _ => none

/-- The innermost function that is being executed: its call is the first that is to be ended. -/
def State.callee? (s : State) : Option Closure :=
  s.control.duties.findSome? Duty.callee?

/-- The scopes in which the duties are met, from the present one outward, lie inside of those of the
functions that they belong to. -/
def Duty.Nested (places : List Place) : Chain → List Duty → Prop
  | _, [] => True
  | scope, .leave outer :: duties => outer.Inside places scope ∧ Nested places outer duties
  | scope, .leaveCall outer c :: duties => c.scope.Inside places scope ∧ Nested places outer duties
  | scope, .assign _ :: duties => Nested places scope duties

/-- The scopes in which pending work goes on, from the present one outward, lie inside of those of
the functions that they belong to. -/
def State.Nested (places : List Place) (s : State) : Prop :=
  Duty.Nested places s.scope s.control.duties

section

variable {places places' : List Place}

namespace Duty.Nested

variable {scope : Chain} {duties : List Duty}

theorem mono (h : Nested places scope duties) (hplaces : places <+: places') :
    Nested places' scope duties := by
  induction duties generalizing scope with
  | nil => exact trivial
  | cons duty duties ih =>
    cases duty with
    | leave outer | leaveCall outer c => exact ⟨h.1.mono hplaces, ih h.2⟩
    | assign a =>
      have next : Nested places scope duties := h
      exact ih next

/-- The scope lies inside of that of the first function whose call is to be ended. -/
theorem inside (h : Nested places scope duties) {c : Closure}
    (hc : duties.findSome? Duty.callee? = some c) : c.scope.Inside places scope := by
  induction duties generalizing scope with
  | nil => cases hc
  | cons duty duties ih =>
    cases duty with
    | leave outer => exact (ih h.2 hc).trans h.1
    | leaveCall outer d => exact Option.some.inj hc ▸ h.1
    | assign a =>
      have next : Nested places scope duties := h
      exact ih next hc

end Duty.Nested

/-- The scope lies inside of that of the function that is being executed. -/
theorem State.Nested.inside {s : State} (h : s.Nested places) {c : Closure}
    (hc : s.callee? = some c) : c.scope.Inside places s.scope :=
  Duty.Nested.inside h hc

end

/-! ### Steps -/

namespace State

variable {places : List Place} {s s' : State} {table : Distances}

theorem opened_eq {new : List Place} (hopens : s.opens s' = new)
    (hframes : s'.heap.frames.size = s.heap.frames.size + new.length) : s.opened s' = new := by
  rw [opened, hopens, hframes, Nat.add_sub_cancel_left, List.take_length]

/-- One scope is opened inside of another, which is not that of a receiver. -/
theorem Nested.inside_child {base c : Chain} (h : base.Inside places c) {place : Place} {n : Nat}
    (hn : n = places.length + 1) (hplace : ∀ span, place ≠ .receiver span) :
    base.Inside (places ++ [place]) (c.push n) :=
  (h.mono (List.prefix_append ..)).push (hn ▸ placeOf?_append places place []) hplace

/-- A step enters and leaves scopes as it should. -/
theorem Nested.step (hsize : s.heap.frames.size = places.length + 1) (h : s.Nested places)
    (hstep : s.Steps table s') : s'.Nested (places ++ s.opened s') := by
  have hnext {new : List Place} : Duty.Nested (places ++ new) s.scope s.control.duties :=
    Duty.Nested.mono h (List.prefix_append ..)
  have hands {duties : List Duty} (hc : s.Hands s'.control duties)
      (hduties : Duty.Nested (places ++ s.opened s') s'.scope duties) :
      s'.Nested (places ++ s.opened s') := by
    unfold State.Nested
    rcases hc.duties with heq | ⟨t, ht⟩
    · rw [heq]
      exact hduties
    · rw [ht]
      exact trivial
  have same (hscope : s'.scope = s.scope) (hduties : s'.control.duties = s.control.duties) :
      s'.Nested (places ++ s.opened s') := by
    rw [State.Nested, hscope, hduties]
    exact hnext
  cases hstep.moves with
  | goes hc | writes _ _ hc => exact hands hc hnext
  | makes hcontrol | makesNamed hcontrol | declares hcontrol | inherits hcontrol =>
    exact same rfl (by rw [hcontrol]; rfl)
  | checks hcontrol | assigns hcontrol =>
    rw [hcontrol] at hnext
    exact hnext
  | binds _ _ _ next | constructs _ _ _ next => exact same rfl next.duties
  | leaves hduties hc | returns hduties hc =>
    rw [hduties] at hnext
    exact hands hc hnext.2
  | @enters place c hplace hopens hc =>
    have hopened : s.opened { s.enterScope with control := c } = [place] :=
      opened_eq (hopens _) (Array.size_push ..)
    refine hands hc ⟨?_, hnext⟩
    rw [hopened]
    refine inside_child .here hsize fun span hspan ↦ ?_
    obtain ⟨_, rfl | rfl⟩ := hplace <;> cases hspan
  | @calls span callee vs k k' c h hcall _ hbody next =>
    obtain ⟨new, H, hplaces, -⟩ := hbody.becomes
    generalize hs' : State.mk _ _ _ _ = s'
    have hframes : h.frames.size = (places ++ new).length + 1 := by
      rw [H.size_eq, hsize, List.length_append]
      omega
    have hopened : s.opened s' = new ++ [.function c.function.span] := by
      refine opened_eq (((opens_of_calling? hcall).2 s').trans hplaces) ?_
      rw [← hs']
      show (Array.push _ _).size = _
      rw [Array.size_push, H.size_eq, List.length_append, List.length_singleton]
      rfl
    rw [hopened, ← hs', State.Nested, ← List.append_assoc]
    refine ⟨inside_child .here hframes nofun, ?_⟩
    rw [hbody.duties, next.duties, List.append_assoc]
    exact hnext
  | tooDeep => exact trivial

end State

/-- At every moment, the scope lies inside of that of the function that is being executed. -/
theorem Moment.Reached.nested {s : Session} {t : State} {places : List Place}
    (h : (Moment.running s t places).Reached) : t.Nested places := by
  suffices hall : ∀ M : Moment, M.Reached → ∀ s t places, M = .running s t places →
      t.Nested places from hall _ h s t places rfl
  intro M hM
  induction hM with
  | refl => exact fun s t places h ↦ nomatch h
  | @tail N N' hN hnext ih =>
    rintro s t places rfl
    cases hnext with
    | accept hload => exact trivial
    | step hstep =>
      obtain ⟨-, -, -, htidy⟩ := Moment.Reached.sound hN
      exact State.Nested.step htidy.size (ih _ _ _ rfl) hstep

end LoxLang
