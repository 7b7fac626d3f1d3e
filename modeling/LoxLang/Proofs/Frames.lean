import LoxLang.Proofs.Safety
import LoxLang.Proofs.Transitions

/-!
# What a step does to the frames

A step writes to frames that are there and adds new ones (`State.Steps.changes`). What it writes is
the variable that the program names, and never `this` or `super`; a new frame is one of the five
kinds of scopes. So whatever a frame binds these two words to stays as it was made
(`Heap.Becomes.keeps`), and only the frame of a receiver binds `this` at all (`Heap.Becomes.tidy`).
-/

namespace LoxLang

/-! ### Changes -/

/-- What a new frame binds, by what opened its scope. -/
inductive Opens : Place → Table → Prop
  | block (span : Span) : Opens (.block span) []
  | loop (span : Span) : Opens (.loop span) []
  | function (span : Span) {t : Table} (ht : ∀ x, (t.get? x).isSome → IsName x) :
      Opens (.function span) t
  | superclass (span : Span) (c : Class) : Opens (.superclass span) [("super", .cls c)]
  | receiver (span : Span) (id : Nat) (c : Class) : Opens (.receiver span) [("this", .object id c)]

/-- The second heap comes from the first by writing to variables and by making frames, for scopes
that were opened by `places`; no instance is lost. -/
inductive Heap.Becomes (h : Heap) : List Place → Heap → Prop
  | refl : Becomes h [] h
  | same {places : List Place} {h' h'' : Heap} (H : Becomes h places h')
      (frames : h''.frames = h'.frames) (objects : h'.objects.size ≤ h''.objects.size) :
      Becomes h places h''
  | write {places : List Place} {h' : Heap} (H : Becomes h places h') (f : FrameId) {x : String}
      (hx : IsName x) (v : Value) : Becomes h places (h'.setIn f x v)
  | push {places : List Place} {h' : Heap} (H : Becomes h places h') {place : Place} {t : Table}
      (ht : Opens place t) : Becomes h (places ++ [place]) { h' with frames := h'.frames.push t }

namespace Heap

/-- Whatever is written, a variable of another name keeps its value. -/
theorem get?_frame_setIn_of_ne {x y : String} (hy : y ≠ x) (h : Heap) (f : FrameId) (v : Value)
    (g : FrameId) : ((h.setIn f x v).frame g).get? y = (h.frame g).get? y := by
  by_cases hf : f < h.frames.size
  · rw [get?_frame_setIn hf, if_neg fun h ↦ hy h.2]
  · rw [setIn_of_size_le (Nat.le_of_not_lt hf)]

/-- Of all frames, only those of receivers bind `this`. -/
structure Tidy (places : List Place) (h : Heap) : Prop where
  size : h.frames.size = places.length + 1
  this {f : Nat} {place : Place} (hplace : places[f]? = some place)
    (hthis : ((h.frame (f + 1)).get? "this").isSome) : ∃ span, place = .receiver span

/-- Between the two moments nothing was lost: `this` and `super` are what they were in every frame,
and no instance is gone. -/
structure Keeps (h h' : Heap) : Prop where
  frames : h.frames.size ≤ h'.frames.size
  objects : h.objects.size ≤ h'.objects.size
  get? {f : FrameId} (hf : f < h.frames.size) {x : String} (hx : ¬ IsName x) :
    (h'.frame f).get? x = (h.frame f).get? x

theorem Keeps.refl (h : Heap) : h.Keeps h := ⟨Nat.le_refl _, Nat.le_refl _, fun _ _ _ ↦ rfl⟩

theorem Keeps.trans {h h' h'' : Heap} (H : h.Keeps h') (H' : h'.Keeps h'') : h.Keeps h'' :=
  ⟨Nat.le_trans H.frames H'.frames, Nat.le_trans H.objects H'.objects, fun hf _ hx ↦
    (H'.get? (Nat.lt_of_lt_of_le hf H.frames) hx).trans (H.get? hf hx)⟩

namespace Becomes

variable {h h' : Heap} {places : List Place}

/-- A method is bound to an instance. -/
theorem bindMethod (H : h.Becomes places h') (m : Closure) (id : Nat) (c : Class) :
    h.Becomes (places ++ [.receiver m.function.span]) (h'.bindMethod m (.object id c)).2 :=
  .push H (.receiver _ id c)

/-- A class without a superclass is made, and bound to its name. -/
theorem declareClass (H : h.Becomes places h') (scope : Chain) {x : String} (hx : IsName x)
    (methods : List FunDecl) : h.Becomes places
      ((h'.newClass scope x none methods).2.define scope x
        (h'.newClass scope x none methods).1) := by
  have hclass : h.Becomes places (h'.newClass scope x none methods).2 :=
    .same H rfl (Nat.le_refl _)
  exact .write hclass _ hx _

/-- A class with a superclass is made, and bound to its name. -/
theorem declareSubclass (H : h.Becomes places h') (scope : Chain) {x : String} (hx : IsName x)
    (span : Span) (above : Class) (methods : List FunDecl) :
    h.Becomes (places ++ [.superclass span])
      ((h'.newClass scope x (some above) methods).2.define scope x
        (h'.newClass scope x (some above) methods).1) := by
  have hframe : h.Becomes (places ++ [.superclass span])
      (h'.child scope [("super", .cls above)]).2 :=
    .push H (.superclass span above)
  have hclass : h.Becomes (places ++ [.superclass span])
      (h'.newClass scope x (some above) methods).2 :=
    .same hframe rfl (Nat.le_refl _)
  exact .write hclass _ hx _

theorem size_eq (H : h.Becomes places h') : h'.frames.size = h.frames.size + places.length := by
  induction H with
  | refl => rfl
  | same _ frames _ ih => rw [frames, ih]
  | write _ f _ v ih => simpa [setIn] using ih
  | push _ _ ih => simp [ih, Nat.add_assoc]

theorem keeps (H : h.Becomes places h') : h.Keeps h' := by
  induction H with
  | refl => exact .refl h
  | same _ frames objects ih =>
    refine ⟨frames ▸ ih.frames, Nat.le_trans ih.objects objects, fun hf x hx ↦ ?_⟩
    rw [frame, frames]
    exact ih.get? hf hx
  | @write _ h' _ f y hy v ih =>
    refine ih.trans ⟨by simp [setIn], Nat.le_refl _, fun {g} _ x hx ↦ ?_⟩
    exact get?_frame_setIn_of_ne (fun heq ↦ hx (by rwa [heq])) h' f v g
  | @push _ h' _ place t _ ih =>
    exact ih.trans ⟨by simp, Nat.le_refl _, fun hg x _ ↦
      congrArg (Table.get? · x) (frame_child_of_lt hg globals t)⟩

theorem tidy (H : h.Becomes places h') {before : List Place} (htidy : h.Tidy before) :
    h'.Tidy (before ++ places) := by
  induction H with
  | refl => rwa [List.append_nil]
  | same _ frames _ ih =>
    refine ⟨frames ▸ ih.size, fun hplace hthis ↦ ih.this hplace ?_⟩
    rw [frame, frames] at hthis
    exact hthis
  | @write _ h' _ f x hx v ih =>
    refine ⟨by simpa [setIn] using ih.size, fun hplace hthis ↦ ih.this hplace ?_⟩
    rwa [get?_frame_setIn_of_ne hx.1.symm] at hthis
  | @push places h' _ place t ht ih =>
    have hsize := ih.size
    refine ⟨?_, fun {f p} hplace hthis ↦ ?_⟩
    · rw [← List.append_assoc, List.length_append, List.length_singleton, ← hsize,
        Array.size_push]
    rw [← List.append_assoc] at hplace
    by_cases hf : f < (before ++ places).length
    · rw [List.getElem?_append_left hf] at hplace
      have hlt : f + 1 < h'.frames.size := by omega
      refine ih.this hplace ?_
      rwa [show ({ h' with frames := h'.frames.push t } : Heap).frame (f + 1) = h'.frame (f + 1)
        from frame_child_of_lt hlt globals t] at hthis
    · -- it is the new frame, and of those only a receiver's binds `this`
      obtain ⟨hle, rfl⟩ : f = (before ++ places).length ∧ place = p := by
        have hlt := (List.getElem?_eq_some_iff.1 hplace).1
        rw [List.length_append, List.length_singleton] at hlt
        obtain rfl : f = (before ++ places).length := by omega
        simpa using hplace
      have hnew : ({ h' with frames := h'.frames.push t } : Heap).frame (f + 1) = t := by
        rw [hle, ← hsize]
        exact frame_child_self h' globals t
      rw [hnew] at hthis
      cases ht with
      | receiver span => exact ⟨span, rfl⟩
      | function span ht => exact absurd rfl (ht _ hthis).1
      | block | loop | superclass => simp [Table.get?, List.lookup_cons] at hthis

end Becomes

end Heap

/-! ### Steps -/

/-- The frames after the step come from those before it, and the new ones are for scopes that the
step opens. -/
def State.Changes (s s' : State) : Prop :=
  ∃ places, places <+: s.opens s' ∧ s.heap.Becomes places s'.heap

theorem argumentTable_names (params : List Name) (vs : List Value) {x : String}
    (hx : ((argumentTable params vs).get? x).isSome) : x ∈ params.map (·.text) := by
  suffices h : ∀ (bindings : List (Name × Value)) (t : Table),
      ((bindings.foldl (fun t b ↦ t.set b.1.text b.2) t).get? x).isSome →
        (t.get? x).isSome ∨ x ∈ bindings.map (·.1.text) by
    obtain hx | hx := h _ _ hx
    · cases hx
    · obtain ⟨b, hb, rfl⟩ := List.mem_map.1 hx
      exact List.mem_map.2 ⟨b.1, (List.of_mem_zip hb).1, rfl⟩
  intro bindings
  induction bindings with
  | nil => exact fun t ht ↦ .inl ht
  | cons b rest ih =>
    intro t ht
    rw [List.map_cons, List.mem_cons]
    obtain ht | ht := ih _ ht
    · by_cases hb : x = b.1.text
      · exact .inr (.inl hb)
      · rw [Table.get?_set_of_ne hb] at ht
        exact .inl ht
    · exact .inr (.inr ht)

namespace State

variable {s s' : State} {table : Distances}

/-- What is made before a body is entered: for a class, the frame of the new instance. -/
theorem Prepares.becomes {k k' : AfterValue} {callee : Value} {c : Closure} {h : Heap}
    (hbody : s.Prepares k callee c h k') : ∃ places, s.heap.Becomes places h ∧
      callee.opens = places ++ [.function c.function.span] ∧
      callee.parameters = c.function.params.map (·.text) := by
  cases hbody with
  | function => exact ⟨[], .refl, rfl, rfl⟩
  | @initializer cls i hi =>
    have hobject : s.heap.Becomes [] (s.heap.newObject cls).2 :=
      .same .refl rfl (by simp [Heap.newObject])
    refine ⟨_, hobject.bindMethod i s.heap.objects.size cls, ?_, ?_⟩
    · rw [Value.opens, hi]
      rfl
    · rw [Value.parameters, hi]
      rfl

/-- A step writes no variable but those that it names, and opens frames as it should. -/
theorem Steps.changes (hstep : s.Steps table s') (hnames : ∀ x ∈ s.binds, IsName x) :
    s.Changes s' := by
  have same (frames : s'.heap.frames = s.heap.frames)
      (objects : s.heap.objects.size ≤ s'.heap.objects.size) : s.Changes s' :=
    ⟨[], List.nil_prefix, .same .refl frames objects⟩
  cases hstep.moves with
  | goes | leaves | returns | makes | checks => exact same rfl (Nat.le_refl _)
  | constructs => exact same rfl (by simp [Heap.newObject])
  | assigns => exact same rfl (by simp [Heap.setField])
  | @writes c x v hx _ _ f => exact ⟨[], List.nil_prefix, .write .refl f (hnames x hx) v⟩
  | @makesNamed f l hcontrol =>
    have hname : IsName f.name := hnames _ (by simp [binds, hcontrol])
    have hmade : s.heap.Becomes [] (s.heap.newFunction ⟨f, s.scope, false⟩).2 :=
      .same .refl rfl (Nat.le_refl _)
    exact ⟨[], List.nil_prefix, .write hmade _ hname _⟩
  | @declares span x methods l hcontrol =>
    have hname : IsName x := hnames _ (by simp [binds, hcontrol])
    have hnil : s.heap.Becomes [] (s.heap.define s.scope x .nil) := .write .refl _ hname _
    exact ⟨[], List.nil_prefix, hnil.declareClass s.scope hname methods⟩
  | @inherits span x above methods l hcontrol =>
    have hname : IsName x := hnames _ (by simp [binds, hcontrol])
    refine ⟨[.superclass span], ?_, Heap.Becomes.refl.declareSubclass s.scope hname span above _⟩
    simp only [opens, hcontrol]
    exact List.prefix_rfl
  | @binds m id c k _ hopens =>
    exact ⟨[.receiver m.function.span], hopens ▸ List.prefix_rfl,
      .same (Heap.Becomes.refl.bindMethod m id c) rfl (Nat.le_refl _)⟩
  | @enters place c hplace hopens =>
    refine ⟨[place], hopens _ ▸ List.prefix_rfl, .push .refl ?_⟩
    obtain ⟨span, rfl | rfl⟩ := hplace
    · exact .block span
    · exact .loop span
  | @calls span callee vs k k' c h hcall _ hbody =>
    obtain ⟨hbinds, hopens⟩ := opens_of_calling? hcall
    obtain ⟨places, H, hplaces, hparameters⟩ := hbody.becomes
    rw [hbinds, hparameters] at hnames
    refine ⟨_, ?_, .push H (.function c.function.span fun x hx ↦ hnames x ?_)⟩
    · exact ((hopens _).trans hplaces) ▸ List.prefix_rfl
    · exact argumentTable_names _ _ hx
  | @tooDeep span callee vs k k' c h hcall _ hbody =>
    obtain ⟨places, H, hplaces, -⟩ := hbody.becomes
    refine ⟨places, ?_, H⟩
    rw [(opens_of_calling? hcall).2, hplaces]
    exact List.prefix_append ..

end State

/-! ### Steps of accepted programs -/

section Related

variable {K : Reference → Prop} {table : Distances} {P : Plan} {left : List (FrameId × String)}
  {s s' : State} {r : Lexical.State}

theorem FitsFunction.parameters {cx : Surroundings} {L : Layers} {kind : FunctionKind} {f : FunDecl}
    (fits : FitsFunction K cx L kind f) :
    (f.params.map (·.text)).Nodup ∧ ∀ x ∈ f.params.map (·.text), IsName x := by
  obtain ⟨span, name, params, body⟩ := f
  exact ⟨fits.1, List.forall_mem_map.2 fits.2.1⟩

/-- In an accepted program, what is called has parameters with different names, none of which is
`this` or `super`. -/
theorem ValueRel.parameters {v : Value} {v' : Lexical.Value} (h : ValueRel K P v v') :
    v.parameters.Nodup ∧ ∀ x ∈ v.parameters, IsName x := by
  cases h with
  | function id h =>
    cases h with
    | mk _ _ fits => exact fits.parameters
  | @cls c c' h =>
    have hi := h.initializer?
    unfold Value.parameters
    dsimp only
    generalize c.initializer? = i at hi ⊢
    generalize c'.initializer? = i' at hi
    cases hi with
    | none => exact ⟨List.nodup_nil, nofun⟩
    | some hm =>
      cases hm with
      | mk _ _ _ fits => exact fits.parameters
  | _ => exact ⟨List.nodup_nil, fun x hx ↦ absurd hx List.not_mem_nil⟩

theorem Related.callee (h : Related K P left s r) {span : Span} {callee : Value}
    {vs : List Value} (hcall : s.calling? = some (span, callee, vs)) :
    ∃ callee', ValueRel K P callee callee' := by
  obtain ⟨H, control⟩ := h
  unfold State.calling? at hcall
  generalize s.control = d at control hcall
  generalize r.control = d' at control
  cases control with
  | @value v v' k k' hv next =>
    cases next with
    | @callee _ _ _ _ es _ _ _ _ =>
      cases es with
      | nil =>
        cases hcall
        exact ⟨_, hv⟩
      | cons => cases hcall
    | @argument _ _ _ _ _ _ _ _ es _ _ hcallee _ _ _ =>
      cases es with
      | nil =>
        cases hcall
        exact ⟨_, hcallee⟩
      | cons => cases hcall
    | _ => cases hcall
  | _ => cases hcall

/-- In an accepted program, `this` and `super` are not written. -/
theorem Related.isName (h : Related K P left s r) : ∀ x ∈ s.binds, IsName x := by
  obtain ⟨H, control⟩ := h
  unfold State.binds
  generalize s.control = c at control
  generalize r.control = c' at control
  cases control with
  | @execute stmt l l' fits next =>
    cases stmt <;> first
      | exact fun x hx ↦ absurd hx List.not_mem_nil
      | exact fun x hx ↦ List.mem_singleton.1 hx ▸ fits.2.1
  | @evaluate e k k' fits next =>
    cases e <;> first
      | exact fun x hx ↦ absurd hx List.not_mem_nil
      | exact fun x hx ↦ List.mem_singleton.1 hx ▸ fits.1
  | @value v v' k k' hv next =>
    cases next with
    | define hx _ _ | inherit hx _ _ _ | assign hx _ _ =>
      exact fun x hmem ↦ List.mem_singleton.1 hmem ▸ hx
    | @callee _ _ _ _ es _ _ _ _ =>
      cases es with
      | nil => exact hv.parameters.2
      | cons => exact fun x hx ↦ absurd hx List.not_mem_nil
    | @argument _ _ _ _ _ _ _ _ es _ _ hcallee _ _ _ =>
      cases es with
      | nil => exact hcallee.parameters.2
      | cons => exact fun x hx ↦ absurd hx List.not_mem_nil
    | _ => exact fun x hx ↦ absurd hx List.not_mem_nil
  | ended => exact fun x hx ↦ absurd hx List.not_mem_nil

/-- A step of an accepted program opens frames as it should, and touches `this` and `super` in
none that is there. -/
theorem Related.becomes (h : Related K P left s r) (hstep : s.Steps table s')
    (htidy : s.heap.Tidy P.places) :
    s.heap.Keeps s'.heap ∧ s'.heap.Tidy (P.places ++ s.opened s') := by
  obtain ⟨places, hopens, H⟩ := hstep.changes h.isName
  have hsize := H.size_eq
  have hopened : s.opened s' = places := by
    rw [State.opened, List.prefix_iff_eq_take.1 hopens, hsize, Nat.add_sub_cancel_left]
  rw [hopened]
  exact ⟨H.keeps, H.tidy htidy⟩

end Related

end LoxLang
