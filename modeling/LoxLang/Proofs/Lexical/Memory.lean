import LoxLang.Proofs.Lexical.Values

/-!
# Heaps and memories

When the heap of the machine with distances holds the same as the memory of the machine with
lexical environments (`HeapRel`), under a plan of the frames. The cell of a variable holds what the
frame of the variable binds its name to. A variable that is declared and has no value is one of
those that are expected to have none, because their first values are still being computed, or were
when an earlier program came to its end.

What the machines do to the one and to the other keeps the two the same.
-/

namespace LoxLang

/-! ### One entry at a time -/

theorem modify_of_size_le {α : Type} {xs : Array α} {i : Nat} (hi : xs.size ≤ i) (f : α → α) :
    xs.modify i f = xs := by
  refine Array.ext (Array.size_modify ..) fun j hj _ ↦ ?_
  rw [Array.getElem_modify, if_neg]
  rw [Array.size_modify] at hj
  exact fun heq ↦ absurd hi (by simpa using heq ▸ hj)

namespace Heap

/-- Of all variables only the one that is written changes. -/
theorem get?_frame_setIn {h : Heap} {f : Nat} (hf : f < h.frames.size) (x : String) (v : Value)
    (g : Nat) (y : String) : ((h.setIn f x v).frame g).get? y =
      if g = f ∧ y = x then some v else (h.frame g).get? y := by
  by_cases hg : g = f
  · subst hg
    rw [frame_setIn_self hf]
    by_cases hy : y = x
    · rw [hy, Table.get?_set_self, if_pos ⟨rfl, rfl⟩]
    · rw [Table.get?_set_of_ne hy, if_neg fun h ↦ hy h.2]
  · rw [frame_setIn_of_ne hg, if_neg fun h ↦ hg h.1]

/-- Of all fields only the one that is assigned changes. -/
theorem get?_fields_setField {h : Heap} {i : Nat} (hi : i < h.objects.size) (x : String)
    (v : Value) (j : Nat) (y : String) : ((h.setField i x v).fields j).get? y =
      if j = i ∧ y = x then some v else (h.fields j).get? y := by
  by_cases hj : j = i
  · subst hj
    rw [fields_setField_self hi]
    by_cases hy : y = x
    · rw [hy, Table.get?_set_self, if_pos ⟨rfl, rfl⟩]
    · rw [Table.get?_set_of_ne hy, if_neg fun h ↦ hy h.2]
  · rw [fields_setField_of_ne hj, if_neg fun h ↦ hj h.1]

/-- Writing to a frame that was never made does nothing. -/
theorem setIn_of_size_le {h : Heap} {f : FrameId} (hf : h.frames.size ≤ f) (x : String)
    (v : Value) : h.setIn f x v = h := by
  rw [setIn, modify_of_size_le hf]

/-- Writing to an instance that was never made does nothing. -/
theorem setField_of_size_le {h : Heap} {i : Nat} (hi : h.objects.size ≤ i) (x : String)
    (v : Value) : h.setField i x v = h := by
  rw [setField, modify_of_size_le hi]

/-- Binding a name in the frame just made is the same as making it with that name bound. -/
theorem setIn_child (h : Heap) (c : Chain) (t : Table) (x : String) (v : Value) :
    (h.child c t).2.setIn h.frames.size x v = (h.child c (t.set x v)).2 := by
  simp only [child, setIn]
  congr 1
  refine Array.ext (by simp) fun j hj _ ↦ ?_
  replace hj : j < h.frames.size + 1 := by simpa using hj
  simp only [Array.getElem_modify, Array.getElem_push]
  split <;> split <;> first | rfl | omega

end Heap

namespace Lexical.Memory

/-- Of all cells only the one that is filled changes. -/
theorem cell_fill {m : Memory} {c : Nat} (hc : c < m.cells.size) (v : Value) (d : Nat) :
    (m.fill c v).cell d = if d = c then some v else m.cell d := by
  unfold cell fill
  by_cases hd : d = c
  · subst hd
    simp [hc, Array.getElem_modify]
  · simp [Array.getElem?_modify, Ne.symm hd, hd]

/-- A new cell comes after those that there are, with its value or empty. -/
theorem cell_allocate (m : Memory) (w : Option Value) (d : Nat) :
    (m.allocate w).2.cell d = if d = m.cells.size then w else m.cell d := by
  unfold cell allocate
  by_cases hd : d = m.cells.size
  · subst hd
    simp
  · simp [Array.getElem?_push, hd]

/-- Of all fields only the one that is assigned changes. -/
theorem fields_setField {m : Memory} {i : Nat} (hi : i < m.objects.size) (x : String) (v : Value)
    (j : Nat) (y : String) : (m.setField i x v).fields j y =
      if j = i ∧ y = x then some v else m.fields j y := by
  unfold fields setField
  by_cases hj : j = i
  · subst hj
    simp [hi, update, Array.getElem_modify]
  · simp [Array.getElem?_modify, Ne.symm hj, hj]

theorem setField_of_size_le {m : Memory} {i : Nat} (hi : m.objects.size ≤ i) (x : String)
    (v : Value) : m.setField i x v = m := by
  rw [setField, modify_of_size_le hi]

end Lexical.Memory

/-! ### The relation -/

/-- The heap holds the same as the memory; only the variables in `missing` may have no value. -/
structure HeapRel (K : Reference → Prop) (P : Plan) (missing : List (FrameId × String)) (h : Heap)
    (m : Lexical.Memory) : Prop where
  size : h.frames.size = P.length + 1
  objects : m.objects.size = h.objects.size
  nextFunction : m.nextFunction = h.nextFunction
  nextClass : m.nextClass = h.nextClass
  globals (x : String) : Option.Rel (ValueRel K P) ((h.frame 0).get? x) (m.globals x)
  fields (i : Nat) (x : String) : Option.Rel (ValueRel K P) ((h.fields i).get? x) (m.fields i x)
  locals {f : Nat} {x : String} {c : Nat} (hc : P.cell? f x = some c) :
    Option.Rel (ValueRel K P) ((h.frame f).get? x) (m.cell c)
  /-- A frame binds no name that is not declared in it. -/
  unbound {f : Nat} {x : String} (hf : f ≠ 0) (hc : P.cell? f x = none) :
    (h.frame f).get? x = none
  bound {f : Nat} {x : String} {c : Nat} (hc : P.cell? f x = some c) : c < m.cells.size
  /-- No two variables share a cell. -/
  distinct {f g : Nat} {x y : String} {c : Nat} (hc : P.cell? f x = some c)
    (hc' : P.cell? g y = some c) : f = g ∧ x = y
  this {f c : Nat} (hc : P.cell? f "this" = some c) :
    ∃ i cls, (h.frame f).get? "this" = some (.object i cls)
  super {f c : Nat} (hc : P.cell? f "super" = some c) :
    ∃ cls, (h.frame f).get? "super" = some (.cls cls)
  ready {f : Nat} {x : String} {c : Nat} (hc : P.cell? f x = some c)
    (hx : (h.frame f).get? x = none) : (f, x) ∈ missing

namespace HeapRel

variable {K K' : Reference → Prop} {P : Plan} {missing missing' : List (FrameId × String)}
  {h : Heap} {m : Lexical.Memory} {f : Nat} {x : String} {v : Value} {v' : Lexical.Value}

/-- A value that may be missing is related still when more references are known and more frames have
been made. -/
theorem rel_mono {P' : Plan} (hK : ∀ r, K r → K' r) (hP : P.Le P') {w : Option Value}
    {w' : Option Lexical.Value} (hw : Option.Rel (ValueRel K P) w w') :
    Option.Rel (ValueRel K' P') w w' := by
  cases hw with
  | none => exact .none
  | some hv => exact .some (hv.mono hK hP)

/-- A heap is related still when more references are known and more variables may be missing. -/
theorem mono (H : HeapRel K P missing h m) (hK : ∀ r, K r → K' r)
    (hm : ∀ p ∈ missing, p ∈ missing') : HeapRel K' P missing' h m :=
  { H with
    globals := fun x ↦ rel_mono hK (.refl P) (H.globals x)
    fields := fun i x ↦ rel_mono hK (.refl P) (H.fields i x)
    locals := fun hc ↦ rel_mono hK (.refl P) (H.locals hc)
    ready := fun hc hx ↦ hm _ (H.ready hc hx) }

/-- A frame of the plan is in the heap. -/
theorem lt_size (H : HeapRel K P missing h m) (hf : (P.place? f).isSome) : f < h.frames.size := by
  have hlt := Plan.lt_of_place? hf
  rw [H.size]
  exact hlt

/-! ### Variables -/

/-- A global variable has a new value. -/
theorem setGlobal (H : HeapRel K P missing h m) (hv : ValueRel K P v v') :
    HeapRel K P missing (h.setIn 0 x v) (m.setGlobal x v') := by
  have hsize : 0 < h.frames.size := by rw [H.size]; exact Nat.succ_pos _
  -- only local variables have cells, and their frames stay as they are
  have hlocal {g : Nat} (hg : g ≠ 0) : (h.setIn 0 x v).frame g = h.frame g :=
    Heap.frame_setIn_of_ne hg ..
  have hne {g c : Nat} {y : String} (hc : P.cell? g y = some c) : g ≠ 0 :=
    Plan.ne_zero_of_place? (Plan.place?_of_cell? hc)
  refine { H with
    size := by rw [← H.size]; exact Array.size_modify ..
    globals := fun y ↦ ?_
    locals := fun hc ↦ hlocal (hne hc) ▸ H.locals hc
    unbound := fun hg hc ↦ hlocal hg ▸ H.unbound hg hc
    this := fun hc ↦ hlocal (hne hc) ▸ H.this hc
    super := fun hc ↦ hlocal (hne hc) ▸ H.super hc
    ready := fun hc hx ↦ H.ready hc (hlocal (hne hc) ▸ hx) }
  rw [Heap.get?_frame_setIn hsize]
  change Option.Rel _ _ (Lexical.update m.globals x v' y)
  unfold Lexical.update
  by_cases hy : y = x
  · rw [if_pos ⟨rfl, hy⟩, if_pos hy]
    exact .some hv
  · rw [if_neg fun h ↦ hy h.2, if_neg hy]
    exact H.globals y

/-- A local variable has a value, so it no longer matters if it had none. -/
theorem fill (H : HeapRel K P ((f, x) :: missing) h m) {c : Nat} (hc : P.cell? f x = some c)
    (hx : IsName x) (hv : ValueRel K P v v') :
    HeapRel K P missing (h.setIn f x v) (m.fill c v') := by
  have hsize := H.lt_size (Plan.place?_of_cell? hc)
  have hne : f ≠ 0 := Plan.ne_zero_of_place? (Plan.place?_of_cell? hc)
  have hget := Heap.get?_frame_setIn hsize x v
  refine { H with
    size := by rw [← H.size]; exact Array.size_modify ..
    globals := fun y ↦ ?_
    locals := fun {g y d} hd ↦ ?_
    unbound := fun {g y} hg hd ↦ ?_
    bound := fun hd ↦ (Array.size_modify ..).symm ▸ H.bound hd
    this := fun {g d} hd ↦ ?_
    super := fun {g d} hd ↦ ?_
    ready := fun {g y d} hd hnone ↦ ?_ }
  · rw [hget, if_neg fun h ↦ hne h.1.symm]
    exact H.globals y
  · rw [hget, Lexical.Memory.cell_fill (H.bound hc)]
    by_cases h : g = f ∧ y = x
    · obtain ⟨rfl, rfl⟩ := h
      rw [hc] at hd
      obtain rfl := Option.some.inj hd
      rw [if_pos ⟨rfl, rfl⟩, if_pos rfl]
      exact .some hv
    · -- another variable has another cell, which is not written
      have hdc : d ≠ c := fun heq ↦ h (H.distinct hd (heq ▸ hc))
      rw [if_neg h, if_neg hdc]
      exact H.locals hd
  · rw [hget, if_neg]
    · exact H.unbound hg hd
    · rintro ⟨rfl, rfl⟩
      rw [hc] at hd
      cases hd
  · -- a name in a program is neither `this` nor `super`
    rw [hget, if_neg fun h ↦ hx.1 h.2.symm]
    exact H.this hd
  · rw [hget, if_neg fun h ↦ hx.2 h.2.symm]
    exact H.super hd
  · rw [hget] at hnone
    split at hnone
    · cases hnone
    · rename_i hne
      -- what is still without a value was missing before, and is not the variable that is written
      rcases List.mem_cons.1 (H.ready hd hnone) with heq | hmem
      · obtain ⟨rfl, rfl⟩ := Prod.mk.inj heq
        exact absurd ⟨rfl, rfl⟩ hne
      · exact hmem

/-- A frame gets a variable, which is bound if it has a value. -/
theorem allocate (H : HeapRel K P missing h m) (hf : (P.place? f).isSome)
    (hc : P.cell? f x = none) {h' : Heap} {w : Option Value} {w' : Option Lexical.Value}
    (hw : Option.Rel (ValueRel K P) w w') (hframes : h'.frames.size = h.frames.size)
    (hrest : { h' with frames := h.frames } = h)
    (hget : ∀ g y, (h'.frame g).get? y = if g = f ∧ y = x then w else (h.frame g).get? y)
    (hthis : x = "this" → ∃ i cls, w = some (.object i cls))
    (hsuper : x = "super" → ∃ cls, w = some (.cls cls))
    (hmissing : ∀ p ∈ missing, p ∈ missing') (hnew : w = none → (f, x) ∈ missing') :
    HeapRel K (P.declare f x m.cells.size) missing' h' (m.allocate w').2 := by
  have hP := (Plan.grows_declare hc m.cells.size).toLe
  have hne := Plan.ne_zero_of_place? hf
  -- the new variable, or an old one with its old cell
  have hcell {g d : Nat} {y : String} (hd : (P.declare f x m.cells.size).cell? g y = some d) :=
    Plan.of_cell?_declare hf hd
  obtain ⟨frames, objects, nextFunction, nextClass⟩ := h
  obtain ⟨frames', objects, nextFunction, nextClass⟩ := h'
  cases hrest
  refine { objects := H.objects, nextFunction := H.nextFunction, nextClass := H.nextClass
           size := by rw [hframes, H.size, Plan.length_declare]
           globals := fun y ↦ ?_
           fields := fun i y ↦ rel_mono (fun _ ↦ id) hP (H.fields i y)
           locals := fun {g y d} hd ↦ ?_
           unbound := fun {g y} hg hd ↦ ?_
           bound := fun {g y d} hd ↦ ?_
           distinct := fun {g g' y y' d} hd hd' ↦ ?_
           this := fun {g d} hd ↦ ?_
           super := fun {g d} hd ↦ ?_
           ready := fun {g y d} hd hnone ↦ ?_ }
  · rw [hget, if_neg fun h ↦ hne h.1.symm]
    exact rel_mono (fun _ ↦ id) hP (H.globals y)
  · rw [hget, Lexical.Memory.cell_allocate]
    rcases hcell hd with ⟨rfl, rfl, rfl⟩ | ⟨h, hd⟩
    · rw [if_pos ⟨rfl, rfl⟩, if_pos rfl]
      exact rel_mono (fun _ ↦ id) hP hw
    · rw [if_neg h, if_neg (Nat.ne_of_lt (H.bound hd))]
      exact rel_mono (fun _ ↦ id) hP (H.locals hd)
  · have h : ¬ (g = f ∧ y = x) := by
      rintro ⟨rfl, rfl⟩
      rw [Plan.cell?_declare_self hf] at hd
      cases hd
    rw [Plan.cell?_declare_of_ne h] at hd
    rw [hget, if_neg h]
    exact H.unbound hg hd
  · have hsize : (m.allocate w').2.cells.size = m.cells.size + 1 := Array.size_push ..
    rw [hsize]
    rcases hcell hd with ⟨-, -, rfl⟩ | ⟨-, hd⟩
    · exact Nat.lt_succ_self _
    · exact Nat.lt_succ_of_lt (H.bound hd)
  · rcases hcell hd with ⟨hg, hy, hnew⟩ | ⟨-, hd⟩ <;>
      rcases hcell hd' with ⟨hg', hy', hnew'⟩ | ⟨-, hd'⟩
    · exact ⟨hg.trans hg'.symm, hy.trans hy'.symm⟩
    · exact absurd hnew (Nat.ne_of_lt (H.bound hd'))
    · exact absurd hnew' (Nat.ne_of_lt (H.bound hd))
    · exact H.distinct hd hd'
  · rw [hget]
    rcases hcell hd with ⟨rfl, hx, -⟩ | ⟨h, hd⟩
    · rw [if_pos ⟨rfl, hx⟩]
      exact hthis hx.symm
    · rw [if_neg h]
      exact H.this hd
  · rw [hget]
    rcases hcell hd with ⟨rfl, hx, -⟩ | ⟨h, hd⟩
    · rw [if_pos ⟨rfl, hx⟩]
      exact hsuper hx.symm
    · rw [if_neg h]
      exact H.super hd
  · rw [hget] at hnone
    rcases hcell hd with ⟨rfl, rfl, -⟩ | ⟨h, hd⟩
    · rw [if_pos ⟨rfl, rfl⟩] at hnone
      exact hnew hnone
    · rw [if_neg h] at hnone
      exact hmissing _ (H.ready hd hnone)

/-- A variable is declared in a frame, without a value. -/
theorem declare (H : HeapRel K P missing h m) (hf : (P.place? f).isSome)
    (hc : P.cell? f x = none) (hx : IsName x) :
    HeapRel K (P.declare f x m.cells.size) ((f, x) :: missing) h (m.allocate none).2 := by
  refine H.allocate hf hc .none rfl rfl (fun g y ↦ ?_) (fun h ↦ absurd h hx.1)
    (fun h ↦ absurd h hx.2) (fun p ↦ List.mem_cons_of_mem _) fun _ ↦ List.mem_cons_self
  split
  · rename_i h
    rw [h.1, h.2]
    exact H.unbound (Plan.ne_zero_of_place? hf) hc
  · rfl

/-- A variable is declared in a frame, with its value. -/
theorem bind (H : HeapRel K P missing h m) (hf : (P.place? f).isSome)
    (hc : P.cell? f x = none) (hv : ValueRel K P v v')
    (hthis : x = "this" → ∃ i cls, v = .object i cls) (hsuper : x = "super" → ∃ cls, v = .cls cls) :
    HeapRel K (P.declare f x m.cells.size) missing (h.setIn f x v) (m.allocate (some v')).2 := by
  refine H.allocate hf hc (.some hv) (Array.size_modify ..) rfl
    (Heap.get?_frame_setIn (H.lt_size hf) x v) (fun h ↦ ?_) (fun h ↦ ?_) (fun _ ↦ id) nofun
  · obtain ⟨i, cls, rfl⟩ := hthis h
    exact ⟨i, cls, rfl⟩
  · obtain ⟨cls, rfl⟩ := hsuper h
    exact ⟨cls, rfl⟩

/-- A frame is made. -/
theorem enter (H : HeapRel K P missing h m) (c : Chain) (place : Place) :
    HeapRel K (P.enter place) missing (h.child c []).2 m := by
  have hP := (Plan.grows_enter (Nat.zero_le (P.length + 1)) place).toLe
  have hsize := H.size
  have hframe {g : Nat} (hg : g < P.length + 1) : (h.child c []).2.frame g = h.frame g :=
    Heap.frame_child_of_lt (by rw [hsize]; exact hg) ..
  -- the new frame has no variables yet
  have hcell {g c : Nat} {y : String} (hc : (P.enter place).cell? g y = some c) :
      g < P.length + 1 ∧ P.cell? g y = some c := by
    have hlt := Plan.lt_of_place? (Plan.place?_of_cell? hc)
    rw [Plan.length_enter] at hlt
    have hne : g ≠ P.length + 1 := by
      rintro rfl
      rw [Plan.cell?_enter_self] at hc
      cases hc
    have hle : g ≤ P.length := by omega
    exact ⟨by omega, Plan.cell?_enter_of_le hle ▸ hc⟩
  refine { objects := H.objects, nextFunction := H.nextFunction, nextClass := H.nextClass
           size := by rw [Plan.length_enter, ← hsize]; exact Array.size_push ..
           globals := fun y ↦ ?_
           fields := fun i y ↦ rel_mono (fun _ ↦ id) hP (H.fields i y)
           locals := fun hd ↦ ?_
           unbound := fun {g y} hg hd ↦ ?_
           bound := fun hd ↦ H.bound (hcell hd).2
           distinct := fun hd hd' ↦ H.distinct (hcell hd).2 (hcell hd').2
           this := fun hd ↦ hframe (hcell hd).1 ▸ H.this (hcell hd).2
           super := fun hd ↦ hframe (hcell hd).1 ▸ H.super (hcell hd).2
           ready := fun hd hnone ↦ H.ready (hcell hd).2 (hframe (hcell hd).1 ▸ hnone) }
  · rw [hframe (Nat.succ_pos _)]
    exact rel_mono (fun _ ↦ id) hP (H.globals y)
  · rw [hframe (hcell hd).1]
    exact rel_mono (fun _ ↦ id) hP (H.locals (hcell hd).2)
  · by_cases hlt : g < P.length + 1
    · rw [hframe hlt]
      rw [Plan.cell?_enter_of_le (Nat.le_of_lt_succ hlt)] at hd
      exact H.unbound hg hd
    · simp only [Heap.frame, Heap.child]
      rw [Array.getElem?_push]
      split
      · rfl
      · rw [Array.getElem?_eq_none (by omega)]
        rfl

/-! ### Instances and numbers -/

/-- An instance is made. -/
theorem newObject (H : HeapRel K P missing h m) (c : Class) (c' : Lexical.Class) :
    HeapRel K P missing (h.newObject c).2 (m.newObject c').2 := by
  refine { H with
    objects := by
      have hobjects := H.objects
      simpa [Heap.newObject, Lexical.Memory.newObject] using hobjects
    fields := fun i y ↦ ?_ }
  have hfields := H.fields i y
  simp only [Heap.fields, Heap.newObject, Lexical.Memory.fields, Lexical.Memory.newObject,
    Array.getElem?_push, H.objects] at hfields ⊢
  split
  · exact .none
  · exact hfields

/-- A field of an instance has a new value. -/
theorem setField (H : HeapRel K P missing h m) (i : Nat) (x : String) (hv : ValueRel K P v v') :
    HeapRel K P missing (h.setField i x v) (m.setField i x v') := by
  by_cases hi : i < h.objects.size
  · refine { H with
      objects := by
        have hobjects := H.objects
        simpa [Heap.setField, Lexical.Memory.setField] using hobjects
      fields := fun j y ↦ ?_ }
    rw [Heap.get?_fields_setField hi, Lexical.Memory.fields_setField (H.objects ▸ hi)]
    split
    · exact .some hv
    · exact H.fields j y
  · have hi := Nat.le_of_not_lt hi
    rw [Heap.setField_of_size_le hi, Lexical.Memory.setField_of_size_le (H.objects ▸ hi)]
    exact H

/-- A function is given its number. -/
theorem countFunction (H : HeapRel K P missing h m) :
    HeapRel K P missing { h with nextFunction := h.nextFunction + 1 }
      { m with nextFunction := m.nextFunction + 1 } :=
  { H with nextFunction := congrArg (· + 1) H.nextFunction }

/-- A class is given its number. -/
theorem countClass (H : HeapRel K P missing h m) :
    HeapRel K P missing { h with nextClass := h.nextClass + 1 }
      { m with nextClass := m.nextClass + 1 } :=
  { H with nextClass := congrArg (· + 1) H.nextClass }

end HeapRel

end LoxLang
