import LoxLang.Program.Equality
import LoxLang.Proofs.Fields
import LoxLang.Proofs.Lineages

/-!
# Properties

What the properties of an instance are (`Moment.Reached.properties`). A property that is read is the
field of that name, and that holds what was assigned to it last; if nothing was, it is the method of
the nearest class in the lineage that declares one. An assignment changes one field of one instance.

Classes are numbered as they are made, and so are instances. A moment has two registers, which list
them in this order (`Moment.Registers`), and a later moment only adds to them. So what has a number
is never replaced, whatever becomes of the names in the program; and since a superclass is there
before a class that is made from it, no lineage comes back to where it was.
-/

namespace LoxLang

/-! ### Registers -/

/-- The classes and the instance that come with the value are listed under their numbers, and a
class comes after those above it. -/
structure Value.Listed (classes instances : List Class) (v : Value) : Prop where
  classes : ∀ c ∈ v.lineage, classes[c.id]? = some c
  order : v.lineage.Pairwise fun c d ↦ d.id < c.id
  instances : ∀ i c, v = .object i c → instances[i]? = some c

namespace Value.Listed

variable {classes instances : List Class} {v : Value}

theorem of_lineage_eq_nil (h : v.lineage = []) : v.Listed classes instances := by
  refine ⟨fun c hc ↦ ?_, ?_, fun i c hv ↦ ?_⟩
  · rw [h] at hc
    cases hc
  · rw [h]
    exact .nil
  · subst hv
    exact absurd h (List.ne_nil_of_mem c.mem_lineage_self)

theorem append (h : v.Listed classes instances) (classes' instances' : List Class) :
    v.Listed (classes ++ classes') (instances ++ instances') := by
  have hkeep {xs ys : List Class} {i : Nat} {c : Class} (hc : xs[i]? = some c) :
      (xs ++ ys)[i]? = some c :=
    (List.getElem?_append_left (List.getElem?_eq_some_iff.1 hc).1).trans hc
  exact ⟨fun c hc ↦ hkeep (h.classes c hc), h.order, fun i c hv ↦ hkeep (h.instances i c hv)⟩

end Value.Listed

namespace State

variable {s s' : State} {table : Distances}

/-- A step makes one class or none. -/
theorem Steps.newClasses (hstep : s.Steps table s') : ∃ new : List Class,
    (∀ c decls scope, s.Declares c decls scope → new = [c]) ∧
    (∀ c ∈ new, ∃ decls scope, s.Declares c decls scope) ∧
    s'.heap.nextClass = s.heap.nextClass + new.length := by
  by_cases h : ∃ c decls scope, s.Declares c decls scope
  · obtain ⟨c, decls, scope, hc⟩ := h
    refine ⟨[c], fun c' _ _ hc' ↦ by rw [hc.unique hc'], fun c' hc' ↦ ?_, hc.nextClass hstep⟩
    obtain rfl := List.mem_singleton.1 hc'
    exact ⟨decls, scope, hc⟩
  · refine ⟨[], fun c _ _ hc ↦ absurd ⟨c, _, _, hc⟩ h, nofun, ?_⟩
    cases hstep.moves with
    | declares hcontrol => exact absurd ⟨_, _, _, .base hcontrol⟩ h
    | inherits hcontrol => exact absurd ⟨_, _, _, .derived hcontrol⟩ h
    | calls _ _ hbody | tooDeep _ _ hbody => cases hbody <;> rfl
    | _ => rfl

/-- A step makes one instance or none. -/
theorem Steps.newInstances (hstep : s.Steps table s') : ∃ new : List Class,
    (∀ span c vs, s.calling? = some (span, .cls c, vs) →
      (Value.cls c).accepts vs.length = .ok () → new = [c]) ∧
    s'.heap.objects.size = s.heap.objects.size + new.length := by
  by_cases h : ∃ span c vs, s.calling? = some (span, .cls c, vs) ∧
      (Value.cls c).accepts vs.length = .ok ()
  · obtain ⟨span, c, vs, hcall, haccepts⟩ := h
    refine ⟨[c], fun _ _ _ hcall' _ ↦ ?_, ?_⟩
    · cases hcall.symm.trans hcall'
      rfl
    · obtain ⟨k, hmoved⟩ := s.step_of_class hcall haccepts table
      rw [hstep.eq_of_moved hmoved]
      exact s.size_objects_construct span c vs k
  · refine ⟨[], fun span c vs hcall haccepts ↦ absurd ⟨span, c, vs, hcall, haccepts⟩ h, ?_⟩
    cases hstep.moves with
    | calls hcall haccepts hbody | tooDeep hcall haccepts hbody =>
      cases hbody with
      | function => rfl
      | initializer => exact absurd ⟨_, _, _, hcall, haccepts⟩ h
    | constructs hcall haccepts => exact absurd ⟨_, _, _, hcall, haccepts⟩ h
    | assigns => exact Array.size_modify ..
    | _ => rfl

/-- What a step makes is listed where its number says. -/
theorem makers_listed {classes instances new made : List Class}
    (hall : s.All (Value.Listed classes instances)) (hclasses : s.heap.nextClass = classes.length)
    (hinstances : s.heap.objects.size = instances.length)
    (hnew : ∀ c decls scope, s.Declares c decls scope → new = [c])
    (hmade : ∀ span c vs, s.calling? = some (span, .cls c, vs) →
      (Value.cls c).accepts vs.length = .ok () → made = [c]) :
    s.Makers (Value.Listed (classes ++ new) (instances ++ made)) table where
  plain hv := .of_lineage_eq_nil hv.lineage_eq_nil
  function _ := .of_lineage_eq_nil rfl
  method _ := .of_lineage_eq_nil rfl
  cls {c decls scope} hc := by
    have hself : (classes ++ new)[c.id]? = some c := by
      rw [hnew c decls scope hc, hc.id_eq, hclasses, List.getElem?_concat_length]
    cases hc with
    | base _ =>
      exact ⟨List.forall_mem_singleton.2 hself, List.pairwise_singleton .., nofun⟩
    | @derived span name above decls l hcontrol =>
      have habove := hall.control (.cls above) (hcontrol ▸ List.mem_cons_self)
      obtain ⟨hlisted, horder, -⟩ := id habove
      refine ⟨List.forall_mem_cons.2 ⟨hself, ?_⟩, List.pairwise_cons.2 ⟨fun d hd ↦ ?_, horder⟩,
        nofun⟩
      · exact (habove.append new made).classes
      · -- the class above has a number already
        have hlt := (List.getElem?_eq_some_iff.1 (hlisted d hd)).1
        exact hclasses ▸ hlt
  object {span c vs} hcall haccepts := by
    have hc := (hall.control _ (values_of_calling? hcall).1).append new made
    refine ⟨hc.classes, hc.order, fun i d hd ↦ ?_⟩
    cases hd
    rw [hmade span c vs hcall haccepts, hinstances, List.getElem?_concat_length]

end State

namespace Moment

/-- The class was made before the moment, from these methods in this scope. -/
def Made (M : Moment) (c : Class) (decls : List FunDecl) (scope : Chain) : Prop :=
  ∃ s t t' places, (running s t places).Reached ∧ t.Declares c decls scope ∧
    t.Steps s.distances t' ∧ (running s t' (places ++ t.opened t')).Later M

/-- All classes and instances that there are at the moment are listed, and the classes were made by
declarations. -/
structure Registers (classes instances : List Class) (M : Moment) : Prop where
  all : M.All (Value.Listed classes instances)
  nextClass : M.heap.nextClass = classes.length
  size : M.heap.objects.size = instances.length
  made : ∀ c ∈ classes, ∃ decls scope, M.Made c decls scope

theorem Made.later {M M' : Moment} {c : Class} {decls : List FunDecl} {scope : Chain}
    (h : M.Made c decls scope) (hlater : M.Later M') : M'.Made c decls scope := by
  obtain ⟨s, t, t', places, hreached, hc, hstep, hM⟩ := h
  exact ⟨s, t, t', places, hreached, hc, hstep, hM.trans hlater⟩

variable {M M' : Moment} {classes instances : List Class}

/-- The next moment adds to the registers. -/
theorem Registers.next (h : M.Registers classes instances) (hM : M.Reached) (hnext : M.Next M') :
    ∃ new made, M'.Registers (classes ++ new) (instances ++ made) := by
  have hold : ∀ c ∈ classes, ∃ decls scope, M'.Made c decls scope := fun c hc ↦ by
    obtain ⟨decls, scope, hmade⟩ := h.made c hc
    exact ⟨decls, scope, hmade.later (.single hnext)⟩
  -- between programs nothing is made
  have hnone (hheap : M'.heap = M.heap) (hrunning : ∀ s t places, M = running s t places →
      ∀ s' t' places', M' ≠ running s' t' places') :
      ∃ new made, M'.Registers (classes ++ new) (instances ++ made) := by
    refine ⟨[], [], ?_, ?_, ?_, ?_⟩
    · rw [List.append_nil, List.append_nil]
      exact h.all.next hnext fun s t t' places hM hM' _ ↦
        absurd hM' (hrunning s t places hM s t' _)
    · rw [hheap, h.nextClass, List.append_nil]
    · rw [hheap, h.size, List.append_nil]
    · rwa [List.append_nil]
  cases id hnext with
  | @refuse s s' _ text faults hload | @accept s s' _ text p hload =>
    exact hnone (Session.heap_of_load hload) nofun
  | leave => exact hnone rfl fun _ _ _ _ ↦ nofun
  | @step s t t' places hstep =>
    obtain ⟨new, hnew, hdeclared, hclasses⟩ := hstep.newClasses
    obtain ⟨made, hmade, hinstances⟩ := hstep.newInstances
    refine ⟨new, made, ?_, ?_, ?_, ?_⟩
    · refine (h.all.mono fun v hv ↦ hv.append new made).next hnext fun s₁ t₁ _ _ hM _ _ ↦ ?_
      cases hM
      exact State.makers_listed h.all h.nextClass h.size hnew hmade
    · rw [List.length_append, ← h.nextClass]
      exact hclasses
    · rw [List.length_append, ← h.size]
      exact hinstances
    · refine List.forall_mem_append.2 ⟨hold, fun c hc ↦ ?_⟩
      obtain ⟨decls, scope, hc⟩ := hdeclared c hc
      exact ⟨decls, scope, s, t, t', places, hM, hc, hstep, .refl⟩

/-- What comes later adds to the registers. -/
theorem Registers.later (h : M.Registers classes instances) (hM : M.Reached)
    (hlater : M.Later M') : ∃ new made, M'.Registers (classes ++ new) (instances ++ made) := by
  induction hlater with
  | refl => exact ⟨[], [], by simpa using h⟩
  | tail hN hnext ih =>
    obtain ⟨new, made, h'⟩ := ih
    obtain ⟨new', made', h''⟩ := h'.next (hM.later hN) hnext
    exact ⟨new ++ new', made ++ made', by simpa using h''⟩

theorem Reached.registers (h : M.Reached) : ∃ classes instances, M.Registers classes instances := by
  have hnew : (idle .new []).Registers [] [] :=
    ⟨.new fun _ hv ↦ .of_lineage_eq_nil hv.lineage_eq_nil, rfl, rfl, nofun⟩
  obtain ⟨new, made, h'⟩ := hnew.later .refl h
  exact ⟨_, _, h'⟩

end Moment

/-! ### What is read -/

/-- No class and no instance has a number that belongs to another one. -/
structure Value.Agrees (v v' : Value) : Prop where
  cls : ∀ c ∈ v.lineage, ∀ c' ∈ v'.lineage, c'.id = c.id → c' = c
  object : ∀ i c c', v = .object i c → v' = .object i c' → c' = c

namespace State

/-- From `s` to `s'` one field gets the value, which is given, and nothing else changes. -/
structure Stores (s s' : State) (id : Nat) (name : String) (v : Value) (k : AfterValue) :
    Prop where
  control : s'.control = .value v k
  scope : s'.scope = s.scope
  depth : s'.depth = s.depth
  frames : s'.heap.frames = s.heap.frames
  nextFunction : s'.heap.nextFunction = s.heap.nextFunction
  nextClass : s'.heap.nextClass = s.heap.nextClass
  instances : s'.heap.objects.size = s.heap.objects.size
  field : (s'.heap.fields id).get? name = some v
  others : ∀ i x, ¬ (i = id ∧ x = name) →
    (s'.heap.fields i).get? x = (s.heap.fields i).get? x

section Steps

variable {s : State} {k : AfterValue} {id : Nat} {name : String}

/-- A property is a field, or else a method, or else it is missing. -/
theorem step_of_property {span : Span} {c : Class}
    (hcontrol : s.control = .value (.object id c) (.property span name k)) (table : Distances) :
    s.step table = .moved
      (match (s.heap.fields id).get? name, c.method? name with
      | some v, _ => s.give v k
      | none, some m => s.giveMethod m (.object id c) k
      | none, none => s.fault span (.noSuchAttribute c.name name)) := by
  unfold step
  rw [hcontrol]
  show Progress.moved (s.readProperty span name (.object id c) k) = _
  unfold readProperty Heap.property
  simp only [Value.asObject]
  cases (s.heap.fields id).get? name with
  | some v => rfl
  | none => cases c.method? name <;> rfl

theorem stores {v : Value} (hcontrol : s.control = .value v (.field id name k))
    (hid : id < s.heap.objects.size) (table : Distances) :
    ∃ s', s.step table = .moved s' ∧ s.Stores s' id name v k := by
  refine ⟨_, step_of_field hcontrol table, rfl, rfl, rfl, rfl, rfl, rfl, Array.size_modify .., ?_,
    fun i x hne ↦ ?_⟩
  · exact (Heap.get?_fields_setField hid name v id name).trans (if_pos ⟨rfl, rfl⟩)
  · exact (Heap.get?_fields_setField hid name v i x).trans (if_neg hne)

end Steps

end State

namespace Moment

variable {M M' : Moment}

/-- What has a number keeps it. -/
theorem Later.agrees (hM : M.Reached) (hlater : M.Later M') :
    M.All fun v ↦ M'.All v.Agrees := by
  obtain ⟨classes, instances, h⟩ := hM.registers
  obtain ⟨new, made, h'⟩ := h.later hM hlater
  refine h.all.mono fun v hv ↦ h'.all.mono fun v' hv' ↦ ?_
  have hv := hv.append new made
  refine ⟨fun c hc c' hc' hid ↦ ?_, fun i c c' hi hi' ↦ ?_⟩
  · have hlisted := hv'.classes c' hc'
    rw [hid, hv.classes c hc] at hlisted
    exact (Option.some.inj hlisted).symm
  · exact Option.some.inj ((hv'.instances i c' hi').symm.trans (hv.instances i c hi))

/-- Every class was made by a declaration, after those above it, and of several methods of one name
in the declaration the last counts. -/
theorem Reached.lineages (h : M.Reached) :
    M.All fun v ↦ v.lineage.Pairwise (fun c d ↦ d.id < c.id) ∧
      ∀ c ∈ v.lineage, ∃ decls scope, M.Made c decls scope ∧ ∀ x, c.methods.lookup x =
        ((decls.filter (·.name == x)).getLast?).map fun f ↦ ⟨f, scope, f.isInitializer⟩ := by
  obtain ⟨classes, instances, hregisters⟩ := h.registers
  refine hregisters.all.mono fun v hv ↦ ⟨hv.order, fun c hc ↦ ?_⟩
  obtain ⟨decls, scope, hmade⟩ := hregisters.made c (List.mem_of_getElem? (hv.classes c hc))
  obtain ⟨_, _, _, _, _, hdeclares, _, _⟩ := id hmade
  exact ⟨decls, scope, hmade, hdeclares.lookup⟩

section Running

variable {s : Session} {t : State} {places : List Place} (h : (running s t places).Reached)
include h

/-- A class that is made is newer than all that there are. -/
theorem Reached.newer {c : Class} {decls : List FunDecl} {scope : Chain}
    (hc : t.Declares c decls scope) : t.All fun v ↦ ∀ d ∈ v.lineage, d.id < c.id := by
  obtain ⟨classes, instances, hregisters⟩ := h.registers
  refine State.All.mono hregisters.all fun v hv d hd ↦ ?_
  rw [hc.id_eq]
  exact hregisters.nextClass ▸ (List.getElem?_eq_some_iff.1 (hv.classes d hd)).1

/-- A property of an instance is the field that was assigned last, or else the method of the nearest
class that declares one. -/
theorem Reached.reads {id : Nat} {c : Class} {span : Span} {name : String} {k : AfterValue}
    (hcontrol : t.control = .value (.object id c) (.property span name k)) :
    (∀ v, (running s t places).LastAssigned id name v →
      t.step s.distances = .moved (t.give v k)) ∧
    ((∀ v, ¬ (running s t places).LastAssigned id name v) →
      ∀ m, c.lineage.findSome? (·.methods.lookup name) = some m →
        t.Binds s.distances (t.giveMethod m (.object id c) k) m (.object id c)) ∧
    ((∃ t', t.Steps s.distances t' ∧
        t'.control = .stuck (.fault ⟨.noSuchAttribute c.name name, span⟩)) ↔
      (∀ v, ¬ (running s t places).LastAssigned id name v) ∧
        ∀ d ∈ c.lineage, d.methods.lookup name = none) := by
  have hfield (v : Value) :
      (t.heap.fields id).get? name = some v ↔ (running s t places).LastAssigned id name v :=
    h.get?_iff
  have hnone : (∀ v, ¬ (running s t places).LastAssigned id name v) ↔
      (t.heap.fields id).get? name = none := by
    rw [Option.eq_none_iff_forall_ne_some]
    exact forall_congr' fun v ↦ not_congr (hfield v).symm
  have hstep := t.step_of_property hcontrol s.distances
  rw [hnone, ← List.findSome?_eq_none_iff, ← Class.method?_eq]
  refine ⟨fun v hv ↦ ?_, fun hv m hm ↦ ?_, fun ⟨t', hsteps, ht'⟩ ↦ ?_, fun ⟨hv, hm⟩ ↦ ?_⟩
  · rw [hstep, (hfield v).2 hv]
  · rw [hv, hm] at hstep
    exact .property hcontrol hm rfl hstep rfl
  · obtain rfl := hsteps.eq_of_moved hstep
    split at ht'
    · cases ht'
    · cases ht'
    · rename_i hv hm
      exact ⟨hv, hm⟩
  · rw [hv, hm] at hstep
    exact ⟨_, .moved hstep, rfl⟩

/-- An assignment whose value is there has been waiting since its object was checked, and changes
one field of one instance. -/
theorem Reached.assigns {v : Value} {id : Nat} {name : String} {k : AfterValue}
    (hcontrol : t.control = .value v (.field id name k)) :
    (running s t places).Checked ⟨id, name, k⟩ ∧
      ∃ t', t.step s.distances = .moved t' ∧ t.Stores t' id name v k := by
  have hchecked := h.checked _ (mem_assignments hcontrol)
  exact ⟨hchecked, t.stores hcontrol hchecked.lt_size s.distances⟩

end Running

/-- Classes, fields and methods at every moment. Each class was made by a declaration, with the last
of several methods of one name, and is newer than those above it; what has the number of a class or
an instance is always the same. A property of an instance is the value that was assigned to the
field last, by whatever name the instance was reached; if none was, then the method of the nearest
class of the lineage that declares it, bound to the instance; and the property is missing just if
there is neither. An assignment changes one field of one instance and nothing else, after its object
was found to be an instance and its value was evaluated; no other step changes a field. -/
theorem Reached.properties (h : M.Reached) :
    (M.All fun v ↦ v.lineage.Pairwise (fun c d ↦ d.id < c.id) ∧
      ∀ c ∈ v.lineage, ∃ decls scope, M.Made c decls scope ∧ ∀ x, c.methods.lookup x =
        ((decls.filter (·.name == x)).getLast?).map fun f ↦ ⟨f, scope, f.isInitializer⟩) ∧
    (∀ M', M.Later M' → M.All fun v ↦ M'.All v.Agrees) ∧
    ∀ s t places, M = running s t places →
      (∀ c decls scope, t.Declares c decls scope →
        M.All fun v ↦ ∀ d ∈ v.lineage, d.id < c.id) ∧
      (∀ id c span name k, t.control = .value (.object id c) (.property span name k) →
        (∀ v, M.LastAssigned id name v → t.step s.distances = .moved (t.give v k)) ∧
        ((∀ v, ¬ M.LastAssigned id name v) →
          ∀ m, c.lineage.findSome? (·.methods.lookup name) = some m →
            t.Binds s.distances (t.giveMethod m (.object id c) k) m (.object id c)) ∧
        ((∃ t', t.Steps s.distances t' ∧
            t'.control = .stuck (.fault ⟨.noSuchAttribute c.name name, span⟩)) ↔
          (∀ v, ¬ M.LastAssigned id name v) ∧ ∀ d ∈ c.lineage, d.methods.lookup name = none)) ∧
      (∀ v id name k, t.control = .value v (.field id name k) → M.Checked ⟨id, name, k⟩ ∧
        ∃ t', t.step s.distances = .moved t' ∧ t.Stores t' id name v k) ∧
      ∀ t', t.Steps s.distances t' → ∀ i x,
        (t'.heap.fields i).get? x ≠ (t.heap.fields i).get? x →
          ∃ v k, t.control = .value v (.field i x k) := by
  refine ⟨h.lineages, fun _ ↦ Later.agrees h, fun s t places hM ↦ ?_⟩
  subst hM
  refine ⟨fun _ _ _ ↦ h.newer, fun _ _ _ _ _ ↦ h.reads, fun _ _ _ _ ↦ h.assigns,
    fun t' hstep i x hne ↦ ?_⟩
  by_contra hcontrol
  exact hne (hstep.get?_fields i x fun v k hc ↦ hcontrol ⟨v, k, hc⟩)

/-- A field is assigned by one name of an instance and read by another. -/
theorem Reached.properties_alias :
    ∃ (s : Session) (p : Program) (t : State) (places : List Place) (c : Class) (k : AfterValue),
      Session.new.load "class A \x7b\x7d var a = A(); var b = a; b.x = nil; a.x;" = (s, .ok p) ∧
      (running s t places).Reached ∧
      t.control = .value (.object 0 c) (.property ⟨46, 49⟩ "x" k) ∧
      (running s t places).LastAssigned 0 "x" .nil ∧
      t.step s.distances = .moved (t.give .nil k) := by
  have hload : Session.new.load "class A \x7b\x7d var a = A(); var b = a; b.x = nil; a.x;" =
      (⟨"class A \x7b\x7d var a = A(); var b = a; b.x = nil; a.x;\n", [], Session.new.heap⟩,
      .ok [.classDecl ⟨0, 10⟩ "A" none [],
        .varDecl ⟨11, 23⟩ "a" (some (.call ⟨19, 22⟩ (.var ⟨19, 20⟩ "A") [])),
        .varDecl ⟨24, 34⟩ "b" (some (.var ⟨32, 33⟩ "a")),
        .expression ⟨35, 45⟩ (.setProperty ⟨35, 44⟩ (.var ⟨35, 36⟩ "b") "x"
          (.literal ⟨41, 44⟩ .nil)),
        .expression ⟨46, 50⟩ (.property ⟨46, 49⟩ (.var ⟨46, 47⟩ "a") "x")]) :=
    Session.load_of_read Session.globalNames_new (by decide +kernel) rfl rfl rfl
  generalize "class A \x7b\x7d var a = A(); var b = a; b.x = nil; a.x;" = text at hload ⊢
  generalize hs : (⟨_, _, _⟩ : Session) = s at hload
  generalize hp : List.cons (Stmt.classDecl ⟨0, 10⟩ "A" none _) _ = p at hload
  have hstart : (running s (.start s.heap p) []).Reached := .tail .refl (.accept hload)
  let c : Class := .mk 0 "A" none []
  let frame : Table := [("clock", .native .clock), ("input", .native .input), ("A", .cls c),
    ("a", .object 0 c), ("b", .object 0 c)]
  -- the state in which the property is read
  let t : State := ⟨.value (.object 0 c) (.property ⟨46, 49⟩ "x" (.discard (.sequence [] .done))),
    Heap.globals, 0, ⟨#[frame], #[[("x", .nil)]], 0, 1⟩⟩
  have ht : ∃ places, (running s (.start s.heap p) []).ahead 24 = running s t places := by
    subst hs hp
    exact ⟨_, rfl⟩
  obtain ⟨places, ht⟩ := ht
  have hreached : (running s t places).Reached := hstart.later (ht ▸ later_ahead 24 _)
  have hassigned : (running s t places).LastAssigned 0 "x" .nil := hreached.get?_iff.1 rfl
  exact ⟨s, p, t, places, c, _, hload, hreached, rfl, hassigned,
    ((Reached.properties hreached).2.2 s t places rfl).2.1 _ _ _ _ _ rfl |>.1 _ hassigned⟩

end Moment

end LoxLang
