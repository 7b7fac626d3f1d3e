import LoxLang.Proofs.Lexical.Relation

/-!
# Declarations and scopes

What the two machines do when a name is declared or gets its first value, when a scope is entered,
and when functions, methods and classes are made. Each operation keeps heap and memory the same,
under a plan that has grown by the frame or the variable that is new.
-/

namespace LoxLang

variable {K : Reference → Prop} {P : Plan} {missing : List (FrameId × String)} {h : Heap}
  {m : Lexical.Memory} {cx : Surroundings} {L : Layers} {scope : Chain} {e : Lexical.Env}
  {x : String} {v : Value} {v' : Lexical.Value}

/-! ### Declarations -/

@[simp] theorem Lexical.State.env_define (r : Lexical.State) (x : String) (v : Lexical.Value) :
    (r.define x v).env = r.env := by
  unfold Lexical.State.define
  split <;> rfl

@[simp] theorem Lexical.State.depth_define (r : Lexical.State) (x : String) (v : Lexical.Value) :
    (r.define x v).depth = r.depth := by
  unfold Lexical.State.define
  split <;> rfl

@[simp] theorem Lexical.State.depth_declare (r : Lexical.State) (x : String) :
    (r.declare x).depth = r.depth := by
  unfold Lexical.State.declare
  split <;> rfl

/-- A name is declared: it is a new variable of the present frame, unless that is the global one. -/
theorem HeapRel.declareIn {r : Lexical.State} (H : HeapRel K P missing h r.memory)
    (stands : Stands P cx L scope r.env) (hfree : L.Free x) (hx : IsName x) :
    ∃ P', P'.places = P.places ∧ P.Grows scope.frame P' ∧
      Stands P' cx (L.declare x) scope (r.declare x).env ∧
      HeapRel K P' ((scope.frame, x) :: missing) h (r.declare x).memory := by
  unfold Lexical.State.declare
  rw [stands.isLocal]
  cases L with
  | nil => exact ⟨P, rfl, .refl .., stands, H.mono (fun _ ↦ id) fun _ ↦ List.mem_cons_of_mem _⟩
  | cons l L =>
    have hcell := stands.cell?_eq_none hfree
    exact ⟨P.declare scope.frame x r.memory.cells.size, Plan.places_declare,
      Plan.grows_declare hcell _, stands.declare hfree hx _,
      H.declare stands.place_isSome hcell hx⟩

/-- A declared name gets its first value. -/
theorem HeapRel.define {r : Lexical.State}
    (H : HeapRel K P ((scope.frame, x) :: missing) h r.memory)
    (stands : Stands P cx L scope r.env) (declared : L.Declared x) (hx : IsName x)
    (hv : ValueRel K P v v') : HeapRel K P missing (h.define scope x v) (r.define x v').memory := by
  unfold Heap.define Lexical.State.define
  cases L with
  | nil =>
    have h0 : scope.frame = 0 := stands.frame_eq_zero.2 rfl
    have hfind : r.env.find? x = none := stands.sees.of_hops?_eq_none rfl
    rw [hfind, h0]
    rw [h0] at H
    -- the global frame is no place for local variables, so no variable was missing there
    refine HeapRel.setGlobal { H with ready := fun {f y c} hc hnone ↦ ?_ } hv
    rcases List.mem_cons.1 (H.ready hc hnone) with heq | hmem
    · obtain ⟨rfl, -⟩ := Prod.mk.inj heq
      exact absurd rfl (Plan.ne_zero_of_place? (Plan.place?_of_cell? hc))
    · exact hmem
  | cons l L =>
    obtain ⟨c, hfind, hc⟩ := stands.sees.of_mem_head declared
    replace hfind : r.env.find? x = some c := hfind
    rw [hfind]
    exact H.fill hc hx hv

/-! ### Scopes -/

/-- A scope is entered that declares one name with a value. -/
theorem HeapRel.enterWith (H : HeapRel K P missing h m) (sees : P.Sees L scope.frames e.names)
    (place : Place) (hv : ValueRel K P v v') (hthis : x = "this" → ∃ i cls, v = .object i cls)
    (hsuper : x = "super" → ∃ cls, v = .cls cls) :
    ∃ P', P'.places = P.places ++ [place] ∧ P.Grows (P.length + 1) P' ∧
      P'.Sees (⟨place, [x]⟩ :: L) (h.child scope [(x, v)]).1.frames
        (m.extend e x (some v')).1.names ∧
      HeapRel K P' missing (h.child scope [(x, v)]).2 (m.extend e x (some v')).2 := by
  have hgrows := Plan.grows_enter (P := P) (Nat.le_refl _) place
  have hnone : (P.enter place).cell? (P.length + 1) x = none := Plan.cell?_enter_self
  have hplace : ((P.enter place).place? (P.length + 1)).isSome := by
    rw [Plan.place?_enter_self]
    rfl
  have heap := (H.enter scope place).bind hplace hnone (hv.mono (fun _ ↦ id) hgrows.toLe)
    hthis hsuper
  -- the frame that is made with the name is an empty one in which the name is bound
  have hchild := Heap.setIn_child h scope [] x v
  rw [H.size] at hchild
  refine ⟨_, ?_, hgrows.trans (Plan.grows_declare hnone m.cells.size), ?_, hchild ▸ heap⟩
  · rw [Plan.places_declare, Plan.places_enter]
  · have hsees := (sees.enter place).declare hnone m.cells.size
    rw [← H.size] at hsees ⊢
    exact hsees

/-- The arguments of a call become variables of the frame that was made for it. -/
theorem HeapRel.bindAll {arguments : List (Name × Value)} {arguments' : List (Name × Lexical.Value)}
    (hargs : List.Forall₂ (fun a a' ↦ a'.1 = a.1 ∧ ValueRel K P a.2 a'.2) arguments arguments')
    (H : HeapRel K P missing h m) {place : Place} {names : List String}
    (stands : Stands P cx (⟨place, names⟩ :: L) scope e)
    (hnames : ∀ a ∈ arguments, IsName a.1.text)
    (hnodup : ((arguments.map (·.1.text)).reverse ++ names).Nodup) :
    ∃ P', P'.places = P.places ∧ P.Grows scope.frame P' ∧
      Stands P' cx (⟨place, (arguments.map (·.1.text)).reverse ++ names⟩ :: L) scope
        (m.extendAll e arguments').1 ∧
      HeapRel K P' missing
        (arguments.foldl (fun h a ↦ h.setIn scope.frame a.1.text a.2) h)
        (m.extendAll e arguments').2 := by
  induction arguments generalizing P h m e names arguments' with
  | nil =>
    cases hargs
    exact ⟨P, rfl, .refl .., stands, H⟩
  | cons a rest ih =>
    cases hargs with
    | @cons _ a' _ rest' ha hrest =>
      obtain ⟨p, v⟩ := a
      obtain ⟨p', v'⟩ := a'
      obtain ⟨rfl, hv⟩ := ha
      -- the first argument is among the names that are taken when the others are bound
      rw [List.map_cons, List.reverse_cons, List.append_assoc] at hnodup
      have hx : IsName p'.text := hnames _ List.mem_cons_self
      have hfree : Layers.Free p'.text (⟨place, names⟩ :: L) := by
        have := (List.nodup_append.1 hnodup).2.1
        exact (List.nodup_cons.1 this).1
      have hcell := stands.cell?_eq_none hfree
      have hgrows := Plan.grows_declare hcell m.cells.size
      obtain ⟨P', hplaces, hgrows', stands', heap⟩ := ih
        (hrest.imp fun _ _ ha ↦ ⟨ha.1, ha.2.mono (fun _ ↦ id) hgrows.toLe⟩)
        (H.bind stands.place_isSome hcell hv (fun h ↦ absurd h hx.1) (fun h ↦ absurd h hx.2))
        (stands.declare hfree hx m.cells.size)
        (fun a ha ↦ hnames a (List.mem_cons_of_mem _ ha)) hnodup
      refine ⟨P', hplaces.trans Plan.places_declare, hgrows.trans hgrows', ?_, heap⟩
      rw [List.map_cons, List.reverse_cons, List.append_assoc]
      exact stands'

/-- Binding the arguments one after another is the same as making the frame with all of them. -/
theorem Heap.foldl_setIn_child (h : Heap) (c : Chain) (arguments : List (Name × Value)) :
    arguments.foldl (fun h' a ↦ h'.setIn h.frames.size a.1.text a.2) (h.child c []).2 =
      (h.child c (arguments.foldl (fun t a ↦ t.set a.1.text a.2) [])).2 := by
  generalize ([] : Table) = t
  induction arguments generalizing t with
  | nil => rfl
  | cons a rest ih => rw [List.foldl_cons, List.foldl_cons, setIn_child, ih]

/-! ### Methods and classes -/

/-- What is found at a distance is what the environment has. -/
theorem HeapRel.getAt (H : HeapRel K P missing h m) (sees : P.Sees L scope.frames e.names)
    {d : Nat} (hd : L.hops? x = some d) :
    ∃ f c, P.cell? f x = some c ∧ h.getAt scope x d = .ok ((h.frame f).get? x) ∧
      Option.Rel (ValueRel K P) ((h.frame f).get? x) ((e.find? x).bind m.cell) := by
  obtain ⟨f, c, l, hf, hfind, hc, -⟩ := sees.of_hops? hd
  replace hf : scope.ancestor? d = some f := hf
  replace hfind : e.find? x = some c := hfind
  refine ⟨f, c, hc, ?_, ?_⟩
  · unfold Heap.getAt Heap.ancestor
    rw [hf]
    rfl
  · rw [hfind]
    exact H.locals hc

/-- Where `this` is visible it is an instance. -/
theorem HeapRel.getAt_this (H : HeapRel K P missing h m) (sees : P.Sees L scope.frames e.names)
    {d : Nat} (hd : L.hops? "this" = some d) :
    ∃ i cls w, h.getAt scope "this" d = .ok (some (.object i cls)) ∧
      (e.find? "this").bind m.cell = some w ∧ ValueRel K P (.object i cls) w := by
  obtain ⟨f, c, hc, hget, hrel⟩ := H.getAt sees hd
  obtain ⟨i, cls, hthis⟩ := H.this hc
  rw [hthis] at hget hrel
  generalize (e.find? "this").bind m.cell = w at hrel ⊢
  cases hrel with
  | some hv => exact ⟨i, cls, _, hget, rfl, hv⟩

/-- Where `super` is visible it is a class. -/
theorem HeapRel.getAt_super (H : HeapRel K P missing h m) (sees : P.Sees L scope.frames e.names)
    {d : Nat} (hd : L.hops? "super" = some d) :
    ∃ cls cls', h.getAt scope "super" d = .ok (some (.cls cls)) ∧
      (e.find? "super").bind m.cell = some (.cls cls') ∧ ClassRel K P cls cls' := by
  obtain ⟨f, c, hc, hget, hrel⟩ := H.getAt sees hd
  obtain ⟨cls, hsuper⟩ := H.super hc
  rw [hsuper] at hget hrel
  generalize (e.find? "super").bind m.cell = w at hrel ⊢
  cases hrel with
  | some hv =>
    cases hv with
    | cls hcls => exact ⟨cls, _, hget, rfl, hcls⟩

/-- A method is bound to an instance. -/
theorem HeapRel.bindMethod (H : HeapRel K P missing h m) {c : Closure} {c' : Lexical.Closure}
    (hc : MethodRel K P c c') (hv : ValueRel K P v v') (hobject : ∃ i cls, v = .object i cls) :
    ∃ P', P'.places = P.places ++ [.receiver c.function.span] ∧ P.Grows (P.length + 1) P' ∧
      FunctionRel K P' (h.bindMethod c v).1 (m.bindMethod c' v').1 ∧
      HeapRel K P' missing (h.bindMethod c v).2 (m.bindMethod c' v').2 := by
  cases hc with
  | @mk cx L cls' kind f scope e b sees hcls super fits initializer =>
    obtain ⟨P', hplaces, hgrows, hsees, heap⟩ :=
      H.enterWith (x := "this") sees (.receiver f.span) hv
      (fun _ ↦ hobject) (fun h ↦ absurd h (by decide))
    refine ⟨P', hplaces, hgrows, .mk hsees (fun c hc ↦ ⟨0, rfl, fun hinherits ↦ ?_⟩) fits
      (fun _ ↦ rfl) initializer, heap⟩
    rw [hcls] at hc
    obtain rfl := Option.some.inj hc
    rw [Layers.hops?_cons, if_neg (show "super" ∉ ["this"] by decide), super hinherits]
    rfl

/-- Each method of a class that fits does so in the layers of a method. -/
theorem FitsMethods.of_mem {fs : List FunDecl} (h : FitsMethods K cx L fs) {f : FunDecl}
    (hf : f ∈ fs) : FitsFunction K cx (L.ofMethod f) (Finding.methodKind f) f := by
  induction fs with
  | nil => cases hf
  | cons g rest ih =>
    rcases List.mem_cons.1 hf with rfl | hf
    · exact h.1
    · exact ih h.2 hf

/-- The methods of a class that is made. -/
theorem MethodsRel.of_fits {methods : List FunDecl} (fits : FitsMethods K cx L methods)
    {cls : ClassContext} (hcls : cx.cls = some cls)
    (super : cls.inherits = true → L.hops? "super" = some 0)
    (sees : P.Sees L scope.frames e.names) :
    MethodsRel K P (methods.map fun f ↦ (f.name, ⟨f, scope, f.isInitializer⟩)).reverse
      (methods.map fun f ↦ (f.name, ⟨f, e, f.isInitializer⟩)).reverse := by
  refine List.rel_reverse ?_
  rw [List.forall₂_map_left_iff, List.forall₂_map_right_iff, List.forall₂_same]
  exact fun f hf ↦ ⟨rfl, .mk sees hcls super (fits.of_mem hf) fun h ↦ if_pos h⟩

/-- A class without a superclass is made. -/
theorem HeapRel.newClass (H : HeapRel K P missing h m) (sees : P.Sees L scope.frames e.names)
    {methods : List FunDecl}
    (fits : FitsMethods K { cx with cls := some ⟨x, false⟩ } L methods) :
    ValueRel K P (h.newClass scope x none methods).1 (m.newClass e x none methods).1 ∧
      HeapRel K P missing (h.newClass scope x none methods).2 (m.newClass e x none methods).2 := by
  refine ⟨?_, H.countClass⟩
  unfold Heap.newClass Lexical.Memory.newClass
  simp only [H.nextClass]
  exact .cls (.base (.of_fits fits rfl nofun sees))

/-- A class with a superclass is made. -/
theorem HeapRel.newSubclass (H : HeapRel K P missing h m) (sees : P.Sees L scope.frames e.names)
    {above : Class} {above' : Lexical.Class} (habove : ClassRel K P above above') {span : Span}
    {methods : List FunDecl}
    (fits : FitsMethods K { cx with cls := some ⟨x, true⟩ }
      (⟨.superclass span, ["super"]⟩ :: L) methods) :
    ∃ P', P'.places = P.places ++ [.superclass span] ∧ P.Grows (P.length + 1) P' ∧
      ValueRel K P' (h.newClass scope x (some above) methods).1
        (m.newClass e x (some above') methods).1 ∧
      HeapRel K P' missing (h.newClass scope x (some above) methods).2
        (m.newClass e x (some above') methods).2 := by
  obtain ⟨P', hplaces, hgrows, hsees, heap⟩ := H.enterWith (x := "super") sees (.superclass span)
    (.cls habove)
    (fun h ↦ absurd h (by decide)) (fun _ ↦ ⟨above, rfl⟩)
  refine ⟨P', hplaces, hgrows, ?_, heap.countClass⟩
  unfold Heap.newClass Lexical.Memory.newClass
  have hnext : (m.extend e "super" (some (.cls above'))).2.nextClass = h.nextClass := H.nextClass
  simp only [hnext]
  exact .cls (.derived (habove.mono (fun _ ↦ id) hgrows.toLe)
    (.of_fits fits rfl (fun _ ↦ rfl) hsees))

end LoxLang
