import LoxLang.Value

/-!
# What changes while a program runs

Variables live in frames, one for each time a scope is entered, and fields live in instances. Both
are tables from names to values, kept in a `Heap` and found by number. Frames are shared: a chain
lists the frames that are visible somewhere, and every chain with a frame sees what is written to
it through any other.

A variable is reached in two ways. By name, the nearest frame of a chain that binds it counts; by
distance, the frame so many hops up the chain, and no other. A distance that leads past the end of
the chain, or to a frame that does not bind the name, contradicts the distances of the program:
that is an `Anomaly`, and not a fault of the program.
-/

namespace LoxLang

/-! ### Tables -/

/-- Names with their values, each name once. -/
abbrev Table := List (String × Value)

namespace Table

/-- The value of a name. -/
def get? (t : Table) (name : String) : Option Value := t.lookup name

/-- The table with a new value for a name. -/
def set (name : String) (v : Value) : Table → Table
  | [] => [(name, v)]
  | (other, w) :: rest =>
    if name = other then (name, v) :: rest else (other, w) :: set name v rest

/-- All names, in the order of their characters. -/
def names (t : Table) : List String := (t.map (·.1)).mergeSort fun a b ↦ a ≤ b

@[simp] theorem get?_nil (name : String) : get? [] name = none := rfl

theorem get?_cons (name other : String) (v : Value) (t : Table) :
    get? ((other, v) :: t) name = if name = other then some v else t.get? name := by
  by_cases h : name = other
  · simp [get?, h]
  · simp [get?, List.lookup_cons, h, beq_false_of_ne h]

/-- A name that was given a value has it. -/
@[simp] theorem get?_set_self (name : String) (v : Value) (t : Table) :
    (set name v t).get? name = some v := by
  induction t with
  | nil => simp [set, get?_cons]
  | cons entry rest ih =>
    obtain ⟨other, w⟩ := entry
    by_cases h : name = other <;> simp [set, get?_cons, h, ih]

/-- Giving a value to one name leaves the others alone. -/
theorem get?_set_of_ne {name other : String} (h : other ≠ name) (v : Value) (t : Table) :
    (set name v t).get? other = t.get? other := by
  induction t with
  | nil => simp [set, get?_cons, h]
  | cons entry rest ih =>
    obtain ⟨key, w⟩ := entry
    by_cases hk : name = key
    · subst hk
      simp [set, get?_cons, h]
    · simp [set, get?_cons, hk, ih]

end Table

/-! ### Anomalies -/

/-- What cannot happen to a program whose distances are right. -/
inductive Anomaly where
  /-- A distance leads past the global frame. -/
  | tooDeep (depth : Nat)
  /-- A local variable has no value yet, or is not where its distance says. -/
  | missingLocal (name : String)
  /-- A reference that needs a distance has none. -/
  | noDistance (span : Span)
  | superNotAClass
  | thisNotBesideSuper
  | thisNotInInitializer
  | returnAtTop
deriving DecidableEq, Repr

/-- An anomaly in words. -/
def Anomaly.message (a : Anomaly) : String :=
  "internal error: entered unreachable code: " ++
  match a with
  | tooDeep depth => s!"scope depth {depth} exceeds the environment chain"
  | missingLocal name =>
    "variable " ++ Text.quoted name ++ " was resolved but could not be found"
  | noDistance span => s!"expression at {span.start}..{span.stop} was never resolved"
  | superNotAClass => "\"super\" was resolved but is not a class"
  | thisNotBesideSuper => "\"this\" was not found next to \"super\""
  | thisNotInInitializer => "\"this\" not present inside \"init\" function"
  | returnAtTop => "return escaped the top level"

/-! ### The heap -/

/-- What the name of a property leads to. -/
inductive Property where
  /-- A value that was written to the instance. -/
  | field (value : Value)
  /-- A method of its class, not yet bound to it. -/
  | method (closure : Closure)

/-- Frames, instances, and the numbers for what is made next. -/
structure Heap where
  /-- The variables of each frame. -/
  frames : Array Table
  /-- The fields of each instance. -/
  objects : Array Table
  /-- The number of the next function. -/
  nextFunction : Nat
  /-- The number of the next class. -/
  nextClass : Nat

namespace Heap

/-- One frame that binds nothing. -/
def empty : Heap := { frames := #[[]], objects := #[], nextFunction := 0, nextClass := 0 }

/-- The chain of the first frame alone. -/
def globals : Chain := ⟨0, []⟩

/-- The variables of a frame. -/
def frame (h : Heap) (id : FrameId) : Table := h.frames[id]?.getD []

/-- The fields of an instance. -/
def fields (h : Heap) (id : Nat) : Table := h.objects[id]?.getD []

/-- A new frame with these variables, inside a chain. -/
def child (h : Heap) (c : Chain) (bound : Table) : Chain × Heap :=
  (c.push h.frames.size, { h with frames := h.frames.push bound })

/-- A new instance without fields. -/
def newObject (h : Heap) (c : Class) : Value × Heap :=
  (.object h.objects.size c, { h with objects := h.objects.push [] })

/-- A new function. -/
def newFunction (h : Heap) (c : Closure) : Value × Heap :=
  (.function h.nextFunction c, { h with nextFunction := h.nextFunction + 1 })

/-- A field of an instance gets a value. -/
def setField (h : Heap) (id : Nat) (name : String) (v : Value) : Heap :=
  { h with objects := h.objects.modify id (Table.set name v) }

/-- A variable of one frame gets a value. -/
def setIn (h : Heap) (frame : FrameId) (name : String) (v : Value) : Heap :=
  { h with frames := h.frames.modify frame (Table.set name v) }

/-- A variable that was written has its value. -/
theorem frame_setIn_self {h : Heap} {frame : FrameId} (hf : frame < h.frames.size) (name : String)
    (v : Value) : (h.setIn frame name v).frame frame = (h.frame frame).set name v := by
  simp [setIn, Heap.frame, hf, Array.getElem_modify]

/-- Writing to one frame leaves the others alone. -/
theorem frame_setIn_of_ne {frame other : FrameId} (ho : other ≠ frame) (h : Heap) (name : String)
    (v : Value) : (h.setIn frame name v).frame other = h.frame other := by
  simp [setIn, Heap.frame, Array.getElem?_modify, ho.symm]

/-- A new frame has its variables. -/
@[simp] theorem frame_child_self (h : Heap) (c : Chain) (bound : Table) :
    (h.child c bound).2.frame (h.child c bound).1.frame = bound := by
  simp [child, Heap.frame, Chain.push]

/-- Making a frame leaves the earlier ones alone. -/
theorem frame_child_of_lt {h : Heap} {frame : FrameId} (hf : frame < h.frames.size) (c : Chain)
    (bound : Table) : (h.child c bound).2.frame frame = h.frame frame := by
  simp [child, Heap.frame, Array.getElem?_push_lt, hf]

/-- A field that was written has its value. -/
theorem fields_setField_self {h : Heap} {id : Nat} (hi : id < h.objects.size) (name : String)
    (v : Value) : (h.setField id name v).fields id = (h.fields id).set name v := by
  simp [setField, fields, hi, Array.getElem_modify]

/-- Writing to one instance leaves the others alone. -/
theorem fields_setField_of_ne {id other : Nat} (ho : other ≠ id) (h : Heap) (name : String)
    (v : Value) : (h.setField id name v).fields other = h.fields other := by
  simp [setField, fields, Array.getElem?_modify, ho.symm]

/-! ### Variables by name and by distance -/

/-- A name is bound in the innermost frame. -/
def define (h : Heap) (c : Chain) (name : String) (v : Value) : Heap := h.setIn c.frame name v

/-- The nearest frame that binds the name. -/
def binder? (h : Heap) (c : Chain) (name : String) : Option FrameId :=
  c.frames.find? fun id ↦ ((h.frame id).get? name).isSome

/-- The value of a name in the nearest frame that binds it. -/
def get? (h : Heap) (c : Chain) (name : String) : Option Value :=
  (h.binder? c name).bind fun id ↦ (h.frame id).get? name

/-- A new value for a name in the nearest frame that binds it, unless none does. -/
def assign? (h : Heap) (c : Chain) (name : String) (v : Value) : Option Heap :=
  (h.binder? c name).map fun id ↦ h.setIn id name v

/-- The frame so many hops up the chain. -/
def ancestor (c : Chain) (depth : Nat) : Except Anomaly FrameId :=
  (c.ancestor? depth).elim (.error (.tooDeep depth)) .ok

/-- The value of a name in the frame so many hops up the chain, if that frame binds it. -/
def getAt (h : Heap) (c : Chain) (name : String) (depth : Nat) : Except Anomaly (Option Value) :=
  (ancestor c depth).map fun id ↦ (h.frame id).get? name

/-- A name is bound in the frame so many hops up the chain. -/
def assignAt (h : Heap) (c : Chain) (name : String) (v : Value) (depth : Nat) :
    Except Anomaly Heap :=
  (ancestor c depth).map fun id ↦ h.setIn id name v

/-! ### Functions, classes and properties -/

/-- A function as a method of an instance: it is a new function, in a new frame that binds
`this`. -/
def bindMethod (h : Heap) (c : Closure) (this : Value) : Closure × Heap :=
  let (scope, h) := h.child c.scope [("this", this)]
  ({ c with scope }, h)

/-- A new class. Its methods see `super` if there is a superclass; of several methods of one name
the last counts. -/
def newClass (h : Heap) (scope : Chain) (name : String) (above : Option Class)
    (methods : List FunDecl) : Value × Heap :=
  let (scope, h) :=
    match above with
    | none => (scope, h)
    | some c => h.child scope [("super", .cls c)]
  let closures := methods.map fun f ↦
    (f.name, { function := f, scope, isInitializer := f.isInitializer : Closure })
  (.cls (.mk h.nextClass name above closures.reverse), { h with nextClass := h.nextClass + 1 })

/-- A property of an instance: its field of that name, or else the method of its class. -/
def property (h : Heap) (id : Nat) (c : Class) (name : String) : Except Cause Property :=
  match (h.fields id).get? name with
  | some v => .ok (.field v)
  | none =>
    match c.method? name with
    | some method => .ok (.method method)
    | none => .error (.noSuchAttribute c.name name)

end Heap

end LoxLang
