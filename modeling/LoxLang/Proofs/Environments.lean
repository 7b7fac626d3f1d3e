import LoxLang.Proofs.Lexical.Memory

/-!
# Environments and what was done with them

Environments are made one inside another, and names are bound in them, assigned by name and assigned
by distance, in any order. A `Log` is the list of what was done. From it alone it can be told which
frames an environment sees (`Log.path`) and which value a name of a frame was given last
(`Log.latest`). The heap after the same operations says nothing else (`Log.Tells`), and so each read
and each write can be told from the log (`Built.store_law`): a write changes one name of one frame,
and it shows wherever that frame is the one that a read comes to (`Log.Changes`).
-/

namespace LoxLang

/-! ### Operations -/

/-- What is done with environments. An environment is known by its own frame, and frames are
numbered as they are made. -/
inductive Operation where
  /-- A new frame is made inside that of the parent. -/
  | child (parent : FrameId)
  /-- A name is bound in the frame itself. -/
  | define (frame : FrameId) (name : String) (v : Value)
  /-- A name gets a new value in the nearest frame that binds it, unless none does. -/
  | assign (frame : FrameId) (name : String) (v : Value)
  /-- A name is bound in the frame so many hops up. -/
  | assignAt (frame : FrameId) (name : String) (v : Value) (depth : Nat)

/-- What has been done with environments, the latest first. -/
abbrev Log := List Operation

namespace Log

/-- How many frames there are. The first is there from the beginning. -/
def size : Log → Nat
  | [] => 1
  | .child _ :: log => size log + 1
  | .define .. :: log | .assign .. :: log | .assignAt .. :: log => size log

/-- A frame, its parent, the parent of that, and so on up to the first frame. -/
def path : Log → FrameId → List FrameId
  | [], f => [f]
  | .child parent :: log, f => if f = size log then f :: path log parent else path log f
  | .define .. :: log, f | .assign .. :: log, f | .assignAt .. :: log, f => path log f

/-- The value that was written last to a name of a frame. -/
def latest : Log → FrameId → String → Option Value
  | [], _, _ => none
  | .child _ :: log, g, y => latest log g y
  | .define f x v :: log, g, y => if g = f ∧ y = x then some v else latest log g y
  | .assign f x v :: log, g, y =>
    if (path log f).find? (fun k ↦ (latest log k x).isSome) = some g ∧ y = x then some v
    else latest log g y
  | .assignAt f x v d :: log, g, y =>
    if (path log f)[d]? = some g ∧ y = x then some v else latest log g y

/-- The nearest frame on the path that binds the name. -/
def binder? (log : Log) (f : FrameId) (x : String) : Option FrameId :=
  (log.path f).find? fun g ↦ (log.latest g x).isSome

end Log

/-- The heap and the environments that a sequence of operations makes, beginning with one
environment that binds nothing. An assignment that fails leaves the heap as it is. -/
inductive Built : Log → Heap → List Chain → Prop
  | first : Built [] .empty [Heap.globals]
  | child {log : Log} {heap : Heap} {envs : List Chain} {f : FrameId} {c : Chain}
      (h : Built log heap envs) (hc : envs[f]? = some c) :
      Built (.child f :: log) (heap.child c []).2 (envs ++ [(heap.child c []).1])
  | define {log : Log} {heap : Heap} {envs : List Chain} {f : FrameId} {c : Chain}
      (h : Built log heap envs) (hc : envs[f]? = some c) (x : String) (v : Value) :
      Built (.define f x v :: log) (heap.define c x v) envs
  | assign {log : Log} {heap : Heap} {envs : List Chain} {f : FrameId} {c : Chain}
      (h : Built log heap envs) (hc : envs[f]? = some c) (x : String) (v : Value) :
      Built (.assign f x v :: log) ((heap.assign? c x v).getD heap) envs
  | assignAt {log : Log} {heap heap' : Heap} {envs : List Chain} {f : FrameId} {c : Chain}
      (h : Built log heap envs) (hc : envs[f]? = some c) (x : String) (v : Value) {d : Nat}
      (hd : heap.assignAt c x v d = .ok heap') :
      Built (.assignAt f x v d :: log) heap' envs

/-- One name of one frame gets a value. By name this shows wherever the frame comes before any
other that binds the name, and by distance wherever the frame is so many hops up; nothing else is
different for anyone. -/
structure Log.Changes (log : Log) (envs : List Chain) (heap heap' : Heap) (g : FrameId)
    (x : String) (v : Value) : Prop where
  rest : heap' = { heap with frames := heap'.frames }
  size : heap'.frames.size = heap.frames.size
  frame (k : FrameId) (y : String) :
    (heap'.frame k).get? y = if k = g ∧ y = x then some v else (heap.frame k).get? y
  get? {f : FrameId} {c : Chain} (hc : envs[f]? = some c) (y : String) :
    heap'.get? c y =
      if (log.path f).find? (fun k ↦ k = g ∨ (log.latest k x).isSome) = some g ∧ y = x then some v
      else heap.get? c y
  getAt {f : FrameId} {c : Chain} (hc : envs[f]? = some c) (y : String) (d : Nat) :
    heap'.getAt c y d =
      if (log.path f)[d]? = some g ∧ y = x then .ok (some v) else heap.getAt c y d

/-! ### The heap is as the log says -/

/-- The heap and the environments are as the log says. -/
structure Log.Tells (log : Log) (heap : Heap) (envs : List Chain) : Prop where
  frames : heap.frames.size = log.size
  length : envs.length = log.size
  path {f : FrameId} {c : Chain} (hc : envs[f]? = some c) : c.frames = log.path f
  own {f : FrameId} {c : Chain} (hc : envs[f]? = some c) : c.frame = f
  bounds {f : FrameId} {c : Chain} (hc : envs[f]? = some c) : ∀ g ∈ c.frames, g < log.size
  latest (g : FrameId) (x : String) : (heap.frame g).get? x = log.latest g x

/-- By name, the first frame of the chain that binds the name counts. -/
theorem Heap.get?_eq_findSome? (h : Heap) (c : Chain) (x : String) :
    h.get? c x = c.frames.findSome? fun k ↦ (h.frame k).get? x := by
  unfold Heap.get? Heap.binder?
  induction c.frames with
  | nil => rfl
  | cons k path ih =>
    rw [List.find?_cons, List.findSome?_cons]
    cases hk : (h.frame k).get? x with
    | none => exact ih
    | some v => exact hk

/-- A new frame that binds nothing cannot be told from one that is not there. -/
theorem Heap.frame_child_nil (h : Heap) (c : Chain) (g : FrameId) :
    (h.child c []).2.frame g = h.frame g := by
  rcases Nat.lt_trichotomy g h.frames.size with hg | rfl | hg
  · exact frame_child_of_lt hg c []
  · simp [child, Heap.frame]
  · simp [child, Heap.frame, Nat.le_of_lt hg, Array.getElem?_push, Nat.ne_of_gt hg]

/-- Of the frames on a path, only the first that counts shows what was written to it. -/
theorem findSome?_write (path : List FrameId) (latest : FrameId → String → Option Value)
    (g : FrameId) (x y : String) (v : Value) :
    path.findSome? (fun k ↦ if k = g ∧ y = x then some v else latest k y) =
      if path.find? (fun k ↦ k = g ∨ (latest k x).isSome) = some g ∧ y = x then some v
      else path.findSome? (latest · y) := by
  induction path with
  | nil => simp
  | cons k path ih =>
    rw [List.findSome?_cons, List.find?_cons, List.findSome?_cons, ih]
    by_cases hk : k = g
    · subst hk
      by_cases hy : y = x <;> simp [hy]
    by_cases hy : y = x
    · subst hy
      cases hv : latest k y <;> simp [hk]
    · simp [hy]

namespace Log.Tells

variable {log : Log} {heap heap' : Heap} {envs : List Chain} {f g : FrameId} {c : Chain}
  {x : String} {v : Value} {d : Nat}

/-! #### Reading -/

theorem binder? (h : log.Tells heap envs) (hc : envs[f]? = some c) (x : String) :
    heap.binder? c x = log.binder? f x := by
  unfold Heap.binder? Log.binder?
  simp only [h.path hc, h.latest]

theorem get? (h : log.Tells heap envs) (hc : envs[f]? = some c) (x : String) :
    heap.get? c x = (log.path f).findSome? (log.latest · x) := by
  rw [Heap.get?_eq_findSome?, h.path hc]
  simp only [h.latest]

theorem getAt (h : log.Tells heap envs) (hc : envs[f]? = some c) (x : String) (d : Nat) :
    heap.getAt c x d =
      ((log.path f)[d]?).elim (.error (.tooDeep d)) fun g ↦ .ok (log.latest g x) := by
  unfold Heap.getAt Heap.ancestor Chain.ancestor?
  rw [h.path hc]
  cases (log.path f)[d]? with
  | none => rfl
  | some g => exact congrArg Except.ok (h.latest g x)

theorem assignAt (h : log.Tells heap envs) (hc : envs[f]? = some c) (x : String) (v : Value)
    (d : Nat) : heap.assignAt c x v d =
      ((log.path f)[d]?).elim (.error (.tooDeep d)) fun g ↦ .ok (heap.setIn g x v) := by
  unfold Heap.assignAt Heap.ancestor Chain.ancestor?
  rw [h.path hc]
  cases (log.path f)[d]? <;> rfl

/-- Every frame on a path is there. -/
theorem lt_size (h : log.Tells heap envs) (hc : envs[f]? = some c) (hg : g ∈ log.path f) :
    g < heap.frames.size := by
  rw [h.frames]
  exact h.bounds hc g (h.path hc ▸ hg)

theorem mem_path (h : log.Tells heap envs) (hc : envs[f]? = some c) : f ∈ log.path f := by
  rw [← h.path hc, ← h.own hc]
  exact List.mem_cons_self

/-! #### Writing -/

/-- What a write to a frame does, for everyone. -/
theorem changes (h : log.Tells heap envs) (hg : g < heap.frames.size) :
    log.Changes envs heap (heap.setIn g x v) g x v where
  rest := rfl
  size := Array.size_modify ..
  frame := Heap.get?_frame_setIn hg x v
  get? {f c} hc y := by
    rw [h.get? hc, Heap.get?_eq_findSome?, h.path hc]
    simp only [Heap.get?_frame_setIn hg, h.latest]
    exact findSome?_write ..
  getAt {f c} hc y d := by
    unfold Heap.getAt Heap.ancestor Chain.ancestor?
    rw [h.path hc]
    cases (log.path f)[d]? with
    | none => simp [Except.map]
    | some k =>
      simp only [Option.elim_some, Except.map, Heap.get?_frame_setIn hg, Option.some.injEq]
      split <;> rfl

/-- An operation that writes to a frame. -/
theorem setIn (h : log.Tells heap envs) (hg : g < heap.frames.size) {op : Operation}
    (hsize : Log.size (op :: log) = log.size) (hpath : Log.path (op :: log) = log.path)
    (hlatest : ∀ k y,
      Log.latest (op :: log) k y = if k = g ∧ y = x then some v else log.latest k y) :
    Log.Tells (op :: log) (heap.setIn g x v) envs where
  frames := by
    rw [hsize, ← h.frames]
    exact Array.size_modify ..
  length := h.length.trans hsize.symm
  path hc := (h.path hc).trans (congrFun hpath _).symm
  own := h.own
  bounds hc k hk := hsize ▸ h.bounds hc k hk
  latest k y := by rw [Heap.get?_frame_setIn hg, hlatest, h.latest]

theorem first : Log.Tells [] .empty [Heap.globals] where
  frames := rfl
  length := rfl
  path {f c} hc := by
    obtain ⟨rfl, rfl⟩ : f = 0 ∧ Heap.globals = c := by simpa [List.getElem?_singleton] using hc
    rfl
  own {f c} hc := by
    obtain ⟨rfl, rfl⟩ : f = 0 ∧ Heap.globals = c := by simpa [List.getElem?_singleton] using hc
    rfl
  bounds {f c} hc g hg := by
    obtain ⟨rfl, rfl⟩ : f = 0 ∧ Heap.globals = c := by simpa [List.getElem?_singleton] using hc
    obtain rfl := List.mem_singleton.mp hg
    exact Nat.zero_lt_one
  latest g x := by
    cases g with
    | zero => rfl
    | succ g => rfl

/-- The environment that was made last, or one that was there before. -/
theorem getElem?_append (h : log.Tells heap envs) {e c' : Chain}
    (hc : (envs ++ [e])[f]? = some c') :
    envs[f]? = some c' ∧ f < log.size ∨ f = log.size ∧ c' = e := by
  rcases Nat.lt_trichotomy f envs.length with hf | rfl | hf
  · exact .inl ⟨(List.getElem?_append_left hf).symm.trans hc, h.length ▸ hf⟩
  · exact .inr ⟨h.length, by simpa using hc.symm⟩
  · have hlen : (envs ++ [e]).length ≤ f := by
      rw [List.length_append]
      exact hf
    rw [List.getElem?_eq_none hlen] at hc
    cases hc

theorem child (h : log.Tells heap envs) (hc : envs[f]? = some c) :
    Log.Tells (.child f :: log) (heap.child c []).2 (envs ++ [(heap.child c []).1]) where
  frames := by
    unfold Log.size Heap.child
    rw [← h.frames]
    exact Array.size_push ..
  length := by
    rw [List.length_append, h.length]
    rfl
  path {k c'} hk := by
    unfold Log.path
    obtain ⟨hk, hlt⟩ | ⟨rfl, rfl⟩ := h.getElem?_append hk
    · rw [if_neg (Nat.ne_of_lt hlt), h.path hk]
    · rw [if_pos rfl, ← h.path hc, ← h.frames]
      rfl
  own {k c'} hk := by
    obtain ⟨hk, -⟩ | ⟨rfl, rfl⟩ := h.getElem?_append hk
    · exact h.own hk
    · exact h.frames
  bounds {k c'} hk g hg := by
    obtain ⟨hk, -⟩ | ⟨rfl, rfl⟩ := h.getElem?_append hk
    · exact Nat.lt_succ_of_lt (h.bounds hk g hg)
    · obtain rfl | hg := List.mem_cons.mp hg
      · exact Nat.lt_succ_of_le (Nat.le_of_eq h.frames)
      · exact Nat.lt_succ_of_lt (h.bounds hc g hg)
  latest g x := (congrArg (Table.get? · x) (heap.frame_child_nil c g)).trans (h.latest g x)

theorem define (h : log.Tells heap envs) (hc : envs[f]? = some c) (x : String) (v : Value) :
    Log.Tells (.define f x v :: log) (heap.define c x v) envs := by
  unfold Heap.define
  rw [h.own hc]
  exact h.setIn (h.lt_size hc (h.mem_path hc)) rfl rfl fun _ _ ↦ rfl

theorem assign (h : log.Tells heap envs) (hc : envs[f]? = some c) (x : String) (v : Value) :
    Log.Tells (.assign f x v :: log) ((heap.assign? c x v).getD heap) envs := by
  unfold Heap.assign?
  rw [h.binder? hc]
  cases hg : log.binder? f x with
  | none =>
    refine ⟨h.frames, h.length, h.path, h.own, h.bounds, fun k y ↦ (h.latest k y).trans ?_⟩
    exact (if_neg fun hk ↦ Option.some_ne_none k (hk.1.symm.trans hg)).symm
  | some g =>
    refine h.setIn (h.lt_size hc (List.mem_of_find?_eq_some hg)) rfl rfl fun k y ↦ ?_
    exact if_congr (and_congr_left' (by rw [← Log.binder?, hg, Option.some_inj, eq_comm])) rfl rfl

theorem assignAt_ok (h : log.Tells heap envs) (hc : envs[f]? = some c) (x : String) (v : Value)
    (hd : heap.assignAt c x v d = .ok heap') : Log.Tells (.assignAt f x v d :: log) heap' envs := by
  rw [h.assignAt hc] at hd
  cases hg : (log.path f)[d]? with
  | none => rw [hg] at hd; cases hd
  | some g =>
    rw [hg] at hd
    obtain rfl := Except.ok.inj hd
    refine h.setIn (h.lt_size hc (List.mem_of_getElem? hg)) rfl rfl fun k y ↦ ?_
    exact if_congr (and_congr_left' (by rw [hg, Option.some_inj, eq_comm])) rfl rfl

end Log.Tells

/-- Whatever is done, the heap and the environments are as the log says. -/
theorem Built.tells {log : Log} {heap : Heap} {envs : List Chain} (h : Built log heap envs) :
    log.Tells heap envs := by
  induction h with
  | first => exact .first
  | child _ hc ih => exact ih.child hc
  | define _ hc x v ih => exact ih.define hc x v
  | assign _ hc x v ih => exact ih.assign hc x v
  | assignAt _ hc x v hd ih => exact ih.assignAt_ok hc x v hd

/-! ### The law -/

/-- How the environment `c` of the frame `f` is read and written, as the log says. -/
structure Log.Governs (log : Log) (heap : Heap) (envs : List Chain) (f : FrameId) (c : Chain)
    (x : String) : Prop where
  /-- By name, the latest value counts of the nearest frame that binds the name. -/
  get? : heap.get? c x = (log.path f).findSome? (log.latest · x)
  /-- There is no value exactly if no frame on the path binds the name. -/
  get?_eq_none : heap.get? c x = none ↔ ∀ g ∈ log.path f, log.latest g x = none
  /-- By distance, one frame counts alone. -/
  getAt (d : Nat) : heap.getAt c x d =
    ((log.path f)[d]?).elim (.error (.tooDeep d)) fun g ↦ .ok (log.latest g x)
  /-- To bind a name changes it in the own frame. -/
  define (v : Value) : log.Changes envs heap (heap.define c x v) f x v
  /-- To assign a name changes it in the nearest frame that binds it. -/
  assign? {v : Value} {heap' : Heap} (ha : heap.assign? c x v = some heap') :
    ∃ g, log.binder? f x = some g ∧ log.Changes envs heap heap' g x v
  /-- To assign a name fails exactly if no frame on the path binds it. -/
  assign?_eq_none (v : Value) :
    heap.assign? c x v = none ↔ ∀ g ∈ log.path f, log.latest g x = none
  /-- To assign by distance changes the name in the frame so many hops up. -/
  assignAt {v : Value} {d : Nat} {heap' : Heap} (ha : heap.assignAt c x v d = .ok heap') :
    ∃ g, (log.path f)[d]? = some g ∧ log.Changes envs heap heap' g x v
  /-- To assign by distance fails exactly if there is no such frame. -/
  assignAt_eq_error (v : Value) (d : Nat) :
    heap.assignAt c x v d = .error (.tooDeep d) ↔ (log.path f).length ≤ d

/-- How a program reads and writes a variable without a distance: in the first frame if that binds
the name, and else it is a fault, which leaves the heap alone. -/
structure Log.GovernsGlobals (log : Log) (s : State) (x : String) : Prop where
  lookup {table : Distances} {span : Span} (ht : table.lookup span = none) :
    s.lookup table span x = (log.latest 0 x).elim (.error (.fault ⟨.notDefined x, span⟩)) .ok
  write {table : Distances} {span : Span} (ht : table.lookup span = none) (v result : Value)
    (next : AfterValue) : s.write table span x v result next =
      if (log.latest 0 x).isSome then s.writeIn 0 x v result next
      else s.fault span (.notDefined x)

namespace Log.Tells

variable {log : Log} {heap : Heap} {envs : List Chain} {f : FrameId} {c : Chain}

theorem binder?_eq_none_iff {x : String} :
    log.binder? f x = none ↔ ∀ g ∈ log.path f, log.latest g x = none := by
  unfold Log.binder?
  simp only [List.find?_eq_none, Option.not_isSome_iff_eq_none]

theorem governs (h : log.Tells heap envs) (hc : envs[f]? = some c) (x : String) :
    log.Governs heap envs f c x where
  get? := h.get? hc x
  get?_eq_none := by rw [h.get? hc, List.findSome?_eq_none_iff]
  getAt := h.getAt hc x
  define v := by
    unfold Heap.define
    rw [h.own hc]
    exact h.changes (h.lt_size hc (h.mem_path hc))
  assign? {v heap'} ha := by
    unfold Heap.assign? at ha
    rw [h.binder? hc] at ha
    obtain ⟨g, hg, rfl⟩ := Option.map_eq_some_iff.mp ha
    exact ⟨g, hg, h.changes (h.lt_size hc (List.mem_of_find?_eq_some hg))⟩
  assign?_eq_none v := by
    unfold Heap.assign?
    rw [h.binder? hc, Option.map_eq_none_iff, binder?_eq_none_iff]
  assignAt {v d heap'} ha := by
    rw [h.assignAt hc] at ha
    cases hg : (log.path f)[d]? with
    | none => rw [hg] at ha; cases ha
    | some g =>
      rw [hg] at ha
      obtain rfl := Except.ok.inj ha
      exact ⟨g, rfl, h.changes (h.lt_size hc (List.mem_of_getElem? hg))⟩
  assignAt_eq_error v d := by
    rw [h.assignAt hc, ← List.getElem?_eq_none_iff]
    cases (log.path f)[d]? <;> simp

end Log.Tells

/-- The first environment is there from the beginning. -/
theorem Built.getElem?_zero {log : Log} {heap : Heap} {envs : List Chain}
    (h : Built log heap envs) : envs[0]? = some Heap.globals := by
  induction h with
  | first => rfl
  | child _ _ ih =>
    exact (List.getElem?_append_left (List.getElem?_eq_some_iff.mp ih).1).trans ih
  | define _ _ _ _ ih | assign _ _ _ _ ih | assignAt _ _ _ _ _ ih => exact ih

theorem Built.governsGlobals {log : Log} {s : State} {envs : List Chain}
    (h : Built log s.heap envs) (x : String) : log.GovernsGlobals s x := by
  have hpath : log.path 0 = [0] := (h.tells.path h.getElem?_zero).symm
  have hbinder : s.heap.binder? Heap.globals x = (log.latest 0 x).map fun _ ↦ 0 := by
    rw [h.tells.binder? h.getElem?_zero, Log.binder?, hpath]
    cases hv : log.latest 0 x <;> simp [hv]
  constructor
  · intro table span ht
    unfold State.lookup State.frameOf
    rw [ht, hbinder]
    cases hv : log.latest 0 x with
    | none => rfl
    | some v => simp only [Option.map_some, h.tells.latest, hv, Option.elim_some]
  · intro table span ht v result next
    unfold State.write State.frameOf
    rw [ht, hbinder]
    cases log.latest 0 x <;> rfl

/-- **What environments remember.** By name, an environment sees the latest value of the nearest
frame on its path that binds the name, and nothing exactly if none does; by distance, it sees one
frame alone. Binding a name, assigning it by name and assigning it by distance change one name of
one frame, as everyone sees it: of the own frame, of the nearest that binds it, of the one so many
hops up. What fails changes nothing. -/
theorem Built.store_law {log : Log} {heap : Heap} {envs : List Chain} {f : FrameId} {c : Chain}
    (h : Built log heap envs) (hc : envs[f]? = some c) (x : String) :
    log.Governs heap envs f c x ∧ ∀ s : State, s.heap = heap → log.GovernsGlobals s x :=
  ⟨h.tells.governs hc x, fun _ hs ↦ Built.governsGlobals (hs ▸ h) x⟩

/-- The middle one of three environments shadows a name, and the last one writes past it. -/
theorem Built.store_law_shadowed : ∃ log heap envs c,
    Built log heap envs ∧ envs[2]? = some c ∧
    heap.get? c "a" = some (.bool false) ∧ heap.getAt c "a" 2 = .ok (some (.bool true)) ∧
    heap.assign? c "b" .nil = none := by
  have h₁ := (Built.first.define (f := 0) rfl "a" .nil).child (f := 0) rfl
  have h₂ := (h₁.define (f := 1) rfl "a" .nil).child (f := 1) rfl
  have h₃ := (h₂.assign (f := 2) rfl "a" (.bool false)).assignAt (f := 2) rfl "a" (.bool true)
    (d := 2) rfl
  have law (x : String) := (h₃.store_law (f := 2) rfl x).1
  exact ⟨_, _, _, _, h₃, rfl, (law "a").get?, (law "a").getAt 2,
    ((law "b").assign?_eq_none .nil).mpr (by decide)⟩

end LoxLang
