import LoxLang.Proofs.Alike
import LoxLang.Proofs.Lexical.Memory

/-!
# Values and memories of alike programs

Two alike programs are run on the machine with lexical environments. Every variable of the one has
the same cell as its counterpart, so the environments at two corresponding places are one `Joint`:
a list of cells, each with two names. Values are alike if they differ in nothing but their
functions, and those are alike functions in environments that are joint; memories are alike if they
have alike values everywhere.

Nothing that values are asked for tells alike values apart, and what the machine does to alike
memories leaves them alike.
-/

namespace LoxLang

namespace Lexical

/-! ### Environments -/

/-- The environments at corresponding places of two programs. -/
structure Joint where
  /-- The cells of the local variables, the latest first, each with its name in the first program
  and its name in the second. -/
  names : List ((String × String) × Nat)
  /-- Whether a declaration at this place is local. -/
  isLocal : Bool

namespace Joint

/-- The environment of the first program. -/
def left (J : Joint) : Env := ⟨J.names.map fun p ↦ (p.1.1, p.2), J.isLocal⟩

/-- The environment of the second program. -/
def right (J : Joint) : Env := ⟨J.names.map fun p ↦ (p.1.2, p.2), J.isLocal⟩

/-- The names without the cells. -/
def pairing (J : Joint) : Pairing := ⟨J.names.map (·.1), J.isLocal⟩

/-- Outside of all scopes. -/
def top : Joint := ⟨[], false⟩

/-- In an inner scope. -/
def inner (J : Joint) : Joint := { J with isLocal := true }

/-- With one more local variable. -/
def bind (x x' : String) (cell : Nat) (J : Joint) : Joint := ⟨((x, x'), cell) :: J.names, true⟩

/-- The same environment for both programs. -/
def diagonal (e : Env) : Joint := ⟨e.names.map fun p ↦ ((p.1, p.1), p.2), e.isLocal⟩

@[simp] theorem left_diagonal (e : Env) : (diagonal e).left = e := by
  simp [diagonal, left, Function.comp_def]

@[simp] theorem right_diagonal (e : Env) : (diagonal e).right = e := by
  simp [diagonal, right, Function.comp_def]

theorem isDiagonal_diagonal (e : Env) : (diagonal e).pairing.IsDiagonal := by
  intro p hp
  simp only [pairing, diagonal, List.map_map, List.mem_map] at hp
  obtain ⟨_, -, rfl⟩ := hp
  rfl

variable {J : Joint} {x x' : String}

/-- Names that refer to the same variable have the same cell, or none. -/
theorem find?_eq (h : Paired J.pairing.names x x') : J.right.find? x' = J.left.find? x := by
  obtain ⟨names, isLocal⟩ := J
  change Paired (names.map (·.1)) x x' at h
  change (names.map fun p ↦ (p.1.2, p.2)).lookup x' = (names.map fun p ↦ (p.1.1, p.2)).lookup x
  induction names with
  | nil => rfl
  | cons p names ih =>
    obtain ⟨⟨y, y'⟩, cell⟩ := p
    simp only [List.map_cons, List.lookup_cons]
    obtain ⟨rfl, rfl⟩ | ⟨hx, hx', h⟩ := h
    · simp
    · rw [beq_false_of_ne hx, beq_false_of_ne hx']
      exact ih h

/-- Only local variables have two names. -/
theorem eq_of_find?_eq_none (h : Paired J.pairing.names x x') (hx : J.left.find? x = none) :
    x' = x := by
  obtain ⟨names, isLocal⟩ := J
  change Paired (names.map (·.1)) x x' at h
  change (names.map fun p ↦ (p.1.1, p.2)).lookup x = none at hx
  induction names with
  | nil => exact h
  | cons p names ih =>
    obtain ⟨⟨y, y'⟩, cell⟩ := p
    simp only [List.map_cons, List.lookup_cons] at hx
    obtain ⟨rfl, -⟩ | ⟨hne, -, h⟩ := h
    · simp at hx
    · rw [beq_false_of_ne hne] at hx
      exact ih h hx

end Joint

/-! ### Values -/

section Values

variable (ω : Leeway)

/-- The functions are alike. -/
inductive FunctionAlike : Closure → Closure → Prop
  | mk {J : Joint} {f f' : FunDecl} {b : Bool} (hf : FunDecl.Alike ω J.pairing f f')
      (this : b = true → Paired J.pairing.names "this" "this") :
      FunctionAlike ⟨f, J.left, b⟩ ⟨f', J.right, b⟩

/-- The methods are alike, neither of them bound to an instance. -/
inductive MethodAlike : Closure → Closure → Prop
  | mk {J : Joint} {f f' : FunDecl} {b : Bool}
      (hf : FunDecl.Alike ω (J.pairing.bind "this" "this") f f') :
      MethodAlike ⟨f, J.left, b⟩ ⟨f', J.right, b⟩

/-- The methods of the two lists are alike, one by one. -/
def MethodsAlike : List (String × Closure) → List (String × Closure) → Prop :=
  List.Forall₂ fun m m' ↦ m'.1 = m.1 ∧ MethodAlike ω m.2 m'.2

/-- The classes are alike. -/
inductive ClassAlike : Class → Class → Prop
  | base {id : Nat} {name : String} {methods methods' : List (String × Closure)}
      (h : MethodsAlike ω methods methods') :
      ClassAlike (.mk id name none methods) (.mk id name none methods')
  | derived {id : Nat} {name : String} {above above' : Class}
      {methods methods' : List (String × Closure)} (habove : ClassAlike above above')
      (h : MethodsAlike ω methods methods') :
      ClassAlike (.mk id name (some above) methods) (.mk id name (some above') methods')

/-- The values are alike. -/
inductive ValueAlike : Value → Value → Prop
  | nil : ValueAlike .nil .nil
  | bool (b : Bool) : ValueAlike (.bool b) (.bool b)
  | number (x : Float) : ValueAlike (.number x) (.number x)
  | string (s : String) : ValueAlike (.string s) (.string s)
  | native (n : Native) : ValueAlike (.native n) (.native n)
  | function (id : Nat) {c c' : Closure} (h : FunctionAlike ω c c') :
      ValueAlike (.function id c) (.function id c')
  | cls {c c' : Class} (h : ClassAlike ω c c') : ValueAlike (.cls c) (.cls c')
  | object (id : Nat) {c c' : Class} (h : ClassAlike ω c c') :
      ValueAlike (.object id c) (.object id c')

end Values

variable {ω : Leeway}

/-! ### Functions and classes -/

namespace FunctionAlike

variable {c c' : Closure}

theorem name_eq (h : FunctionAlike ω c c') : c'.function.name = c.function.name := by
  cases h with
  | mk hf _ => exact hf.name_eq

theorem arity_eq (h : FunctionAlike ω c c') : c'.arity = c.arity := by
  cases h with
  | mk hf _ => exact hf.arity_eq

end FunctionAlike

theorem MethodAlike.arity_eq {c c' : Closure} (h : MethodAlike ω c c') : c'.arity = c.arity := by
  cases h with
  | mk hf => exact hf.arity_eq

/-- Tables of methods that are alike have methods of the same names, and these are alike. -/
theorem MethodsAlike.lookup {ms ms' : List (String × Closure)} (h : MethodsAlike ω ms ms')
    (x : String) : Option.Rel (MethodAlike ω) (ms.lookup x) (ms'.lookup x) := by
  unfold MethodsAlike at h
  induction h with
  | nil => exact .none
  | @cons m m' _ _ hm _ ih =>
    obtain ⟨y, c⟩ := m
    obtain ⟨y', c'⟩ := m'
    obtain ⟨rfl, hc⟩ := hm
    simp only [List.lookup_cons]
    cases x == y' with
    | true => exact .some hc
    | false => exact ih

namespace ClassAlike

variable {c c' : Class}

/-- Classes that are alike have the same number. -/
theorem id_eq (h : ClassAlike ω c c') : c'.id = c.id := by
  cases h <;> rfl

/-- Classes that are alike have the same name. -/
theorem name_eq (h : ClassAlike ω c c') : c'.name = c.name := by
  cases h <;> rfl

/-- Classes that are alike have or inherit the same methods, which are alike. -/
theorem method? (h : ClassAlike ω c c') (x : String) :
    Option.Rel (MethodAlike ω) (c.method? x) (c'.method? x) := by
  induction h with
  | base h => exact h.lookup x
  | derived _ h ih =>
    have hm := h.lookup x
    unfold Class.method?
    revert hm
    cases List.lookup x _ <;> cases List.lookup x _ <;> intro hm
    · exact ih
    · cases hm
    · cases hm
    · exact hm

/-- Classes that are alike have initializers that are alike, or both have none. -/
theorem initializer? (h : ClassAlike ω c c') :
    Option.Rel (MethodAlike ω) c.initializer? c'.initializer? :=
  h.method? _

/-- Classes that are alike are called with as many arguments. -/
theorem arity_eq (h : ClassAlike ω c c') : c'.arity = c.arity := by
  have hi := h.initializer?
  unfold Class.arity
  revert hi
  generalize c.initializer? = i
  generalize c'.initializer? = i'
  intro hi
  cases hi with
  | none => rfl
  | some hm => exact hm.arity_eq

end ClassAlike

/-- The methods of alike classes, made in joint environments. -/
theorem MethodsAlike.of_alike {J : Joint} {fs fs' : List FunDecl}
    (h : FunDecl.AllAlike ω J.pairing fs fs') :
    MethodsAlike ω (fs.map fun f ↦ (f.name, ⟨f, J.left, f.isInitializer⟩)).reverse
      (fs'.map fun f ↦ (f.name, ⟨f, J.right, f.isInitializer⟩)).reverse := by
  refine List.rel_reverse ?_
  induction fs generalizing fs' with
  | nil =>
    cases h
    exact .nil
  | cons f fs ih =>
    cases h with
    | @cons _ _ f' _ _ hf hfs =>
      refine .cons ⟨hf.name_eq, ?_⟩ (ih hfs)
      have hinitializer : f'.isInitializer = f.isInitializer := by
        unfold FunDecl.isInitializer
        rw [hf.name_eq]
      simp only [hinitializer]
      exact .mk hf

/-! ### What values are asked for -/

namespace ValueAlike

variable {v v' w w' : Value}

/-- Values that are alike decide conditions alike. -/
theorem isTruthy_eq (h : ValueAlike ω v v') : v'.isTruthy = v.isTruthy := by
  cases h <;> rfl

/-- Values that are alike are of the same type. -/
theorem typeName_eq (h : ValueAlike ω v v') : v'.typeName = v.typeName := by
  cases h with
  | object id h => exact h.name_eq
  | _ => rfl

/-- Values that are alike are printed alike. -/
theorem display_eq (h : ValueAlike ω v v') : v'.display = v.display := by
  cases h with
  | function id h => simp [Value.display, h.name_eq]
  | cls h => exact h.name_eq
  | object id h => simp [Value.display, h.name_eq]
  | _ => rfl

/-- Whether values are equal is told alike by values that are alike. -/
theorem equals_eq (h : ValueAlike ω v v') (hw : ValueAlike ω w w') :
    v'.equals w' = v.equals w := by
  cases h <;> cases hw <;> try rfl
  case cls.cls h _ _ hw => simp [Value.equals, h.id_eq, hw.id_eq]

/-- Values that are alike can be called both, or neither can. -/
theorem callable_eq (h : ValueAlike ω v v') : v'.callable = v.callable := by
  cases h with
  | object id h => simp [Value.callable, Value.typeName, h.name_eq]
  | _ => rfl

theorem signature_eq (h : ValueAlike ω v v') : v'.signature = v.signature := by
  cases h with
  | function id h => simp [Value.signature, h.name_eq, h.arity_eq]
  | cls h => simp [Value.signature, h.name_eq, h.arity_eq]
  | object id h => simp [Value.signature, Value.typeName, h.name_eq]
  | _ => rfl

/-- Values that are alike accept as many arguments. -/
theorem accepts_eq (h : ValueAlike ω v v') (count : Nat) : v'.accepts count = v.accepts count := by
  unfold Value.accepts
  rw [h.signature_eq]

/-- Values that are alike are the same instance of classes that are alike, or neither is an
instance. -/
theorem asObject (h : ValueAlike ω v v') (name : String) :
    ResultRel (fun o o' ↦ o'.1 = o.1 ∧ ClassAlike ω o.2 o'.2) (v.asObject name)
      (v'.asObject name) := by
  cases h with
  | object id h => exact .ok ⟨rfl, h⟩
  | _ => exact .error _

/-- Values that are alike decide logical operators alike. -/
theorem decides_eq (h : ValueAlike ω v v') (op : BinaryOp) : v'.decides op = v.decides op := by
  cases op <;> simp [Value.decides, h.isTruthy_eq]

/-- A unary operator gives alike values for such operands, or the same cause. -/
theorem unary (h : ValueAlike ω v v') (op : UnaryOp) :
    ResultRel (ValueAlike ω) (v.unary op) (v'.unary op) := by
  have htype := h.typeName_eq.symm
  cases op with
  | not =>
    simp only [Value.unary, h.isTruthy_eq]
    exact .ok (.bool _)
  | negate =>
    cases h with
    | number x => exact .ok (.number _)
    | _ => exact .error_of_eq (congrArg (Cause.unsupportedOperand _) htype)

/-- A step operator gives alike values for such operands, or the same cause. -/
theorem stepped (h : ValueAlike ω v v') (op : StepOp) :
    ResultRel (ValueAlike ω) (v.stepped op) (v'.stepped op) := by
  have htype := h.typeName_eq.symm
  cases h with
  | number x => cases op <;> exact .ok (.number _)
  | _ => cases op <;> exact .error_of_eq (congrArg (Cause.unsupportedOperand _) htype)

/-- A binary operator gives alike values for such operands, or the same cause. -/
theorem binary (h : ValueAlike ω v v') (hw : ValueAlike ω w w') (op : BinaryOp) :
    ResultRel (ValueAlike ω) (v.binary op w) (v'.binary op w') := by
  have htypes : Cause.unsupportedOperands op.symbol v.typeName w.typeName =
      Cause.unsupportedOperands op.symbol v'.typeName w'.typeName := by
    rw [h.typeName_eq, hw.typeName_eq]
  cases op with
  | or | and =>
    unfold Value.binary
    exact .ok hw
  | equal | notEqual =>
    simp only [Value.binary, h.equals_eq hw]
    exact .ok (.bool _)
  | _ =>
    -- only numbers and strings have such operators, and they are the same on both sides
    cases h <;> cases hw <;> first
      | exact .error_of_eq htypes
      | exact .ok (.number _)
      | exact .ok (.string _)
      | exact .ok (.bool _)

end ValueAlike

theorem ValueAlike.ofLiteral (l : Literal) : ValueAlike ω (.ofLiteral l) (.ofLiteral l) := by
  cases l with
  | nil => exact .nil
  | bool b => exact .bool b
  | number x => exact .number x
  | string s => exact .string s

/-! ### Memories -/

/-- The memories hold alike values everywhere. -/
structure MemoryAlike (ω : Leeway) (m m' : Memory) : Prop where
  size : m'.cells.size = m.cells.size
  objects : m'.objects.size = m.objects.size
  nextFunction : m'.nextFunction = m.nextFunction
  nextClass : m'.nextClass = m.nextClass
  cell (c : Nat) : Option.Rel (ValueAlike ω) (m.cell c) (m'.cell c)
  globals (x : String) : Option.Rel (ValueAlike ω) (m.globals x) (m'.globals x)
  fields (i : Nat) (x : String) : Option.Rel (ValueAlike ω) (m.fields i x) (m'.fields i x)

/-- Writing to a cell that was never made does nothing. -/
theorem Memory.fill_of_size_le {m : Memory} {c : Nat} (hc : m.cells.size ≤ c) (v : Value) :
    m.fill c v = m := by
  have hcells : m.cells.modify c (fun _ ↦ some v) = m.cells := by
    refine Array.ext (Array.size_modify ..) fun j hj _ ↦ ?_
    rw [Array.getElem_modify, if_neg]
    rw [Array.size_modify] at hj
    exact fun heq ↦ absurd hc (by simpa using heq ▸ hj)
  rw [fill, hcells]

namespace MemoryAlike

variable {m m' : Memory} {J : Joint} {x x' : String} {v v' : Value}

/-- A new cell has the same number on both sides. -/
theorem allocate (H : MemoryAlike ω m m') {w w' : Option Value}
    (hw : Option.Rel (ValueAlike ω) w w') :
    MemoryAlike ω (m.allocate w).2 (m'.allocate w').2 := by
  refine { H with
    size := by
      have hsize := H.size
      simpa [Memory.allocate] using hsize
    cell := fun c ↦ ?_ }
  rw [Memory.cell_allocate, Memory.cell_allocate, H.size]
  split
  · exact hw
  · exact H.cell c

/-- The same cell is filled with values that are alike. -/
theorem fill (H : MemoryAlike ω m m') (c : Nat) (hv : ValueAlike ω v v') :
    MemoryAlike ω (m.fill c v) (m'.fill c v') := by
  by_cases hc : c < m.cells.size
  · refine { H with
      size := by
        have hsize := H.size
        simpa [Memory.fill] using hsize
      cell := fun d ↦ ?_ }
    rw [Memory.cell_fill hc, Memory.cell_fill (H.size.symm ▸ hc)]
    split
    · exact .some hv
    · exact H.cell d
  · have hc := Nat.le_of_not_lt hc
    rw [Memory.fill_of_size_le hc, Memory.fill_of_size_le (H.size.symm ▸ hc)]
    exact H

/-- The same global variable is bound to values that are alike. -/
theorem setGlobal (H : MemoryAlike ω m m') (x : String) (hv : ValueAlike ω v v') :
    MemoryAlike ω (m.setGlobal x v) (m'.setGlobal x v') := by
  refine { H with globals := fun y ↦ ?_ }
  change Option.Rel _ (update m.globals x v y) (update m'.globals x v' y)
  unfold update
  split
  · exact .some hv
  · exact H.globals y

/-- The same field is assigned values that are alike. -/
theorem setField (H : MemoryAlike ω m m') (i : Nat) (x : String) (hv : ValueAlike ω v v') :
    MemoryAlike ω (m.setField i x v) (m'.setField i x v') := by
  by_cases hi : i < m.objects.size
  · refine { H with
      objects := by
        have hobjects := H.objects
        simpa [Memory.setField] using hobjects
      fields := fun j y ↦ ?_ }
    rw [Memory.fields_setField hi, Memory.fields_setField (H.objects.symm ▸ hi)]
    split
    · exact .some hv
    · exact H.fields j y
  · have hi := Nat.le_of_not_lt hi
    rw [Memory.setField_of_size_le hi, Memory.setField_of_size_le (H.objects.symm ▸ hi)]
    exact H

/-- Instances of classes that are alike are made under the same number. -/
theorem newObject (H : MemoryAlike ω m m') {c c' : Class} (hc : ClassAlike ω c c') :
    ValueAlike ω (m.newObject c).1 (m'.newObject c').1 ∧
      MemoryAlike ω (m.newObject c).2 (m'.newObject c').2 := by
  constructor
  · unfold Memory.newObject
    rw [H.objects]
    exact .object _ hc
  · refine { H with
      objects := by
        have hobjects := H.objects
        simpa [Memory.newObject] using hobjects
      fields := fun i y ↦ ?_ }
    have hfields := H.fields i y
    simp only [Memory.fields, Memory.newObject, Array.getElem?_push, H.objects] at hfields ⊢
    split
    · exact .none
    · exact hfields

/-- Functions that are alike are made under the same number. -/
theorem newFunction (H : MemoryAlike ω m m') {c c' : Closure} (hc : FunctionAlike ω c c') :
    ValueAlike ω (m.newFunction c).1 (m'.newFunction c').1 ∧
      MemoryAlike ω (m.newFunction c).2 (m'.newFunction c').2 := by
  refine ⟨?_, { H with nextFunction := congrArg (· + 1) H.nextFunction }⟩
  unfold Memory.newFunction
  rw [H.nextFunction]
  exact .function _ hc

/-- A new local variable extends both environments by the same cell. -/
theorem extend (H : MemoryAlike ω m m') (J : Joint) (x x' : String) {w w' : Option Value}
    (hw : Option.Rel (ValueAlike ω) w w') :
    (m.extend J.left x w).1 = (J.bind x x' m.cells.size).left ∧
      (m'.extend J.right x' w').1 = (J.bind x x' m.cells.size).right ∧
      MemoryAlike ω (m.extend J.left x w).2 (m'.extend J.right x' w').2 := by
  refine ⟨rfl, ?_, H.allocate hw⟩
  rw [← H.size]
  rfl

/-- The parameters of alike functions extend both environments by the same cells. -/
theorem extendAll (H : MemoryAlike ω m m') (J : Joint) {ps ps' : List Name}
    {args args' : List Value} (hps : ps'.length = ps.length) (hlength : args.length = ps.length)
    (hargs : List.Forall₂ (ValueAlike ω) args args') :
    ∃ J' : Joint, J'.pairing = J.pairing.bindAll ps ps' ∧
      (m.extendAll J.left (ps.zip args)).1 = J'.left ∧
      (m'.extendAll J.right (ps'.zip args')).1 = J'.right ∧
      MemoryAlike ω (m.extendAll J.left (ps.zip args)).2
        (m'.extendAll J.right (ps'.zip args')).2 := by
  induction hargs generalizing m m' J ps ps' with
  | nil =>
    obtain rfl := List.length_eq_zero_iff.1 hlength.symm
    obtain rfl := List.length_eq_zero_iff.1 hps
    exact ⟨J, rfl, rfl, rfl, H⟩
  | @cons v v' args args' hv hargs ih =>
    cases ps with
    | nil => cases hlength
    | cons p ps =>
      cases ps' with
      | nil => cases hps
      | cons p' ps' =>
        obtain ⟨hleft, hright, H'⟩ := H.extend J p.text p'.text (.some hv)
        obtain ⟨J', hpairing, hleft', hright', H''⟩ :=
          ih H' (J.bind p.text p'.text m.cells.size) (Nat.succ.inj hps) (Nat.succ.inj hlength)
        rw [← hleft] at hleft' H''
        rw [← hright] at hright' H''
        exact ⟨J', hpairing, hleft', hright', H''⟩

/-- Alike methods that are bound to alike instances are alike functions. -/
theorem bindMethod (H : MemoryAlike ω m m') {c c' : Closure} (hc : MethodAlike ω c c')
    (hv : ValueAlike ω v v') :
    FunctionAlike ω (m.bindMethod c v).1 (m'.bindMethod c' v').1 ∧
      MemoryAlike ω (m.bindMethod c v).2 (m'.bindMethod c' v').2 := by
  cases hc with
  | @mk J f f' b hf =>
    obtain ⟨hleft, hright, H'⟩ := H.extend J "this" "this" (.some hv)
    refine ⟨?_, H'⟩
    change FunctionAlike ω ⟨f, (m.extend J.left "this" (some v)).1, b⟩
      ⟨f', (m'.extend J.right "this" (some v')).1, b⟩
    rw [hleft, hright]
    exact .mk hf fun _ ↦ .inl ⟨rfl, rfl⟩

/-- A class without a superclass is made. -/
theorem newClass (H : MemoryAlike ω m m') (x : String) {fs fs' : List FunDecl}
    (hfs : FunDecl.AllAlike ω J.pairing fs fs') :
    ValueAlike ω (m.newClass J.left x none fs).1 (m'.newClass J.right x none fs').1 ∧
      MemoryAlike ω (m.newClass J.left x none fs).2 (m'.newClass J.right x none fs').2 := by
  refine ⟨?_, { H with nextClass := congrArg (· + 1) H.nextClass }⟩
  unfold Memory.newClass
  simp only [H.nextClass]
  exact .cls (.base (.of_alike hfs))

/-- A class with a superclass is made. -/
theorem newSubclass (H : MemoryAlike ω m m') (x : String) {above above' : Class}
    (habove : ClassAlike ω above above') {fs fs' : List FunDecl}
    (hfs : FunDecl.AllAlike ω (J.pairing.bind "super" "super") fs fs') :
    ValueAlike ω (m.newClass J.left x (some above) fs).1
        (m'.newClass J.right x (some above') fs').1 ∧
      MemoryAlike ω (m.newClass J.left x (some above) fs).2
        (m'.newClass J.right x (some above') fs').2 := by
  obtain ⟨hleft, hright, H'⟩ := H.extend J "super" "super" (.some (.cls habove))
  refine ⟨?_, { H' with nextClass := congrArg (· + 1) H.nextClass }⟩
  unfold Memory.newClass
  simp only [hleft, hright, H'.nextClass]
  exact .cls (.derived habove (.of_alike hfs))

end MemoryAlike

/-! ### What is alike to itself -/

section Refl

variable {K : Reference → Prop} {P : Plan}

/-- A function of a program that fits is like itself. -/
theorem FunctionAlike.refl {c : LoxLang.Closure} {c' : Closure} (h : FunctionRel K P c c') :
    FunctionAlike ω c' c' := by
  cases h with
  | @mk cx L kind f scope e b sees surrounds fits this initializer =>
    have hJ := Joint.isDiagonal_diagonal e
    have h : FunctionAlike ω ⟨f, (Joint.diagonal e).left, b⟩ ⟨f, (Joint.diagonal e).right, b⟩ :=
      .mk (fits.alike hJ) fun _ ↦ hJ.paired _
    rwa [Joint.left_diagonal, Joint.right_diagonal] at h

theorem MethodAlike.refl {c : LoxLang.Closure} {c' : Closure} (h : MethodRel K P c c') :
    MethodAlike ω c' c' := by
  cases h with
  | @mk cx L cls kind f scope e b sees hcls super fits initializer =>
    have hJ := Joint.isDiagonal_diagonal e
    have h : MethodAlike ω ⟨f, (Joint.diagonal e).left, b⟩ ⟨f, (Joint.diagonal e).right, b⟩ :=
      .mk (fits.alike (hJ.bind "this"))
    rwa [Joint.left_diagonal, Joint.right_diagonal] at h

theorem MethodsAlike.refl {ms : List (String × LoxLang.Closure)} {ms' : List (String × Closure)}
    (h : MethodsRel K P ms ms') : MethodsAlike ω ms' ms' := by
  unfold MethodsRel at h
  induction h with
  | nil => exact .nil
  | cons hm _ ih => exact .cons ⟨rfl, .refl hm.2⟩ ih

/-- A class of a program that fits is like itself. -/
theorem ClassAlike.refl {c : LoxLang.Class} {c' : Class} (h : ClassRel K P c c') :
    ClassAlike ω c' c' := by
  induction h with
  | base h => exact .base (.refl h)
  | derived _ h ih => exact .derived ih (.refl h)

/-- A value of a program that fits is like itself. -/
theorem ValueAlike.refl {v : LoxLang.Value} {v' : Value} (h : ValueRel K P v v') :
    ValueAlike ω v' v' := by
  cases h with
  | nil => exact .nil
  | bool b => exact .bool b
  | number x => exact .number x
  | string s => exact .string s
  | native n => exact .native n
  | function id h => exact .function id (.refl h)
  | cls h => exact .cls (.refl h)
  | object id h => exact .object id (.refl h)

theorem ValueAlike.refl? {v : Option LoxLang.Value} {v' : Option Value}
    (h : Option.Rel (ValueRel K P) v v') : Option.Rel (ValueAlike ω) v' v' := by
  cases h with
  | none => exact .none
  | some h => exact .some (.refl h)

/-- A heap has a memory in which all cells are empty that belong to no variable. -/
theorem Memory.exists_tidy {missing : List (FrameId × String)} {h : Heap} {m : Memory}
    (H : HeapRel K P missing h m) : ∃ m' : Memory, HeapRel K P missing h m' ∧
      ∀ c, (m'.cell c).isSome = true → ∃ f x, P.cell? f x = some c := by
  classical
  let cells : Array (Option Value) := Array.ofFn fun c : Fin m.cells.size ↦
    if ∃ f x, P.cell? f x = some c.1 then m.cell c else none
  have hsize : cells.size = m.cells.size := Array.size_ofFn
  have hcell (c : Nat) : ({ m with cells } : Memory).cell c =
      if c < m.cells.size ∧ ∃ f x, P.cell? f x = some c then m.cell c else none := by
    change cells[c]?.join = _
    by_cases hc : c < m.cells.size
    · simp [cells, hc]
    · simp [cells, hc]
  refine ⟨{ m with cells }, { H with
    locals := fun {f x c} hc ↦ ?_
    bound := fun hc ↦ hsize.symm ▸ H.bound hc }, fun c hc ↦ ?_⟩
  · rw [hcell, if_pos ⟨H.bound hc, f, x, hc⟩]
    exact H.locals hc
  · rw [hcell] at hc
    split at hc
    · rename_i h
      exact h.2
    · cases hc

/-- A memory that belongs to a heap is alike to itself, if no cell belongs to no variable. -/
theorem MemoryAlike.refl {missing : List (FrameId × String)} {h : Heap} {m : Memory}
    (H : HeapRel K P missing h m)
    (htidy : ∀ c, (m.cell c).isSome = true → ∃ f x, P.cell? f x = some c) :
    MemoryAlike ω m m where
  size := rfl
  objects := rfl
  nextFunction := rfl
  nextClass := rfl
  cell c := by
    cases hc : m.cell c with
    | none => exact .none
    | some v =>
      obtain ⟨f, x, hx⟩ := htidy c (by rw [hc]; rfl)
      rw [← hc]
      exact ValueAlike.refl? (H.locals hx)
  globals x := ValueAlike.refl? (H.globals x)
  fields i x := ValueAlike.refl? (H.fields i x)

end Refl

end Lexical

end LoxLang
