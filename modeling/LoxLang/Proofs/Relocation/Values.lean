import LoxLang.Proofs.Relocation
import LoxLang.Store
import Mathlib.Logic.Function.Basic

/-!
# Values of relocated programs

A closure carries the text of its function, and through closures so do classes, instances and all
variables. What is done with values does not look into these texts: an operator has the same
result, a name is found in the same place, and what is made anew is made of the same parts. So each
operation on values, tables and heaps may be done before or after all spans in them are replaced.
-/

namespace LoxLang

variable (f : Span → Span)

/-! ### Closures and classes -/

/-- The closure with each span of its function replaced. -/
def Closure.relocate (c : Closure) : Closure := { c with function := c.function.relocate f }

/-- The class with each span of its methods replaced, and of those above it. -/
def Class.relocate : Class → Class
  | .mk id name none methods =>
    .mk id name none (methods.map fun (x, c) ↦ (x, c.relocate f))
  | .mk id name (some above) methods =>
    .mk id name (some above.relocate) (methods.map fun (x, c) ↦ (x, c.relocate f))

@[simp] theorem Closure.function_relocate (c : Closure) :
    (c.relocate f).function = c.function.relocate f := rfl

@[simp] theorem Closure.scope_relocate (c : Closure) : (c.relocate f).scope = c.scope := rfl

@[simp] theorem Closure.isInitializer_relocate (c : Closure) :
    (c.relocate f).isInitializer = c.isInitializer := rfl

@[simp] theorem Closure.arity_relocate (c : Closure) : (c.relocate f).arity = c.arity := by
  simp [arity]

/-- A key is found in a list whose keys and values are replaced where it is found in the list. -/
theorem lookup_map {κ α β : Type} [BEq κ] [LawfulBEq κ] {k : κ → κ} (hk : Function.Injective k)
    (g : α → β) (x : κ) (entries : List (κ × α)) :
    (entries.map fun (y, a) ↦ (k y, g a)).lookup (k x) = (entries.lookup x).map g := by
  induction entries with
  | nil => rfl
  | cons entry rest ih =>
    obtain ⟨y, a⟩ := entry
    have hkeys : (k x == k y) = (x == y) := by
      rw [Bool.eq_iff_iff, beq_iff_eq, beq_iff_eq, hk.eq_iff]
    rw [List.map_cons, List.lookup_cons, List.lookup_cons, ih, hkeys]
    split <;> rfl

namespace Class

@[simp] theorem id_relocate (c : Class) : (c.relocate f).id = c.id := by
  obtain ⟨id, name, - | above, methods⟩ := c <;> rfl

@[simp] theorem name_relocate (c : Class) : (c.relocate f).name = c.name := by
  obtain ⟨id, name, - | above, methods⟩ := c <;> rfl

/-- A class has the same methods after its code has been moved, in the same classes above it. -/
theorem method?_relocate (x : String) :
    ∀ c : Class, (c.relocate f).method? x = (c.method? x).map (Closure.relocate f)
  | .mk _ _ none methods => lookup_map Function.injective_id _ x methods
  | .mk id name (some above) methods => by
    have hown := lookup_map Function.injective_id (Closure.relocate f) x methods
    simp only [id_eq] at hown
    rw [relocate, method?, method?, hown]
    cases methods.lookup x with
    | some c => rfl
    | none => exact method?_relocate x above

theorem initializer?_relocate (c : Class) :
    (c.relocate f).initializer? = c.initializer?.map (Closure.relocate f) :=
  c.method?_relocate f _

@[simp] theorem arity_relocate (c : Class) : (c.relocate f).arity = c.arity := by
  unfold arity
  rw [initializer?_relocate]
  cases c.initializer? with
  | none => rfl
  | some closure => exact closure.arity_relocate f

end Class

/-! ### Values -/

/-- The value with each span of its code replaced. -/
def Value.relocate : Value → Value
  | .function id c => .function id (c.relocate f)
  | .cls c => .cls (c.relocate f)
  | .object id c => .object id (c.relocate f)
  | v => v

namespace Value

@[simp] theorem ofLiteral_relocate (l : Literal) : (ofLiteral l).relocate f = ofLiteral l := by
  cases l <;> rfl

@[simp] theorem isTruthy_relocate (v : Value) : (v.relocate f).isTruthy = v.isTruthy := by
  cases v <;> rfl

@[simp] theorem typeName_relocate (v : Value) : (v.relocate f).typeName = v.typeName := by
  cases v with
  | object id c => exact c.name_relocate f
  | _ => rfl

@[simp] theorem display_relocate (v : Value) : (v.relocate f).display = v.display := by
  cases v with
  | function id c => simp [relocate, display]
  | cls c => exact c.name_relocate f
  | object id c => simp [relocate, display]
  | _ => rfl

/-- Whether values are equal does not depend on where their code stands. -/
theorem equals_relocate (v w : Value) : (v.relocate f).equals (w.relocate f) = v.equals w := by
  cases v with
  | cls c =>
    cases w with
    | cls d => simp [relocate, equals]
    | _ => rfl
  | _ => cases w <;> rfl

theorem callable_relocate (v : Value) : (v.relocate f).callable = v.callable := by
  cases v with
  | object id c => simp [relocate, callable, typeName]
  | _ => rfl

/-- What a function expects does not depend on where it stands. -/
theorem signature_relocate (v : Value) : (v.relocate f).signature = v.signature := by
  cases v with
  | function id c => simp [relocate, signature]
  | cls c => simp [relocate, signature]
  | object id c => simp [relocate, signature, typeName]
  | _ => rfl

/-- Whether arguments are accepted does not depend on where the function stands. -/
theorem accepts_relocate (v : Value) (count : Nat) :
    (v.relocate f).accepts count = v.accepts count := by
  unfold accepts
  rw [signature_relocate]

/-- Whether a value is an instance does not depend on where its code stands. -/
theorem asObject_relocate (x : String) (v : Value) :
    (v.relocate f).asObject x = (v.asObject x).map fun (id, c) ↦ (id, c.relocate f) := by
  cases v <;> rfl

/-- A unary operator gives the same value for a value that was moved, or the same cause. -/
theorem unary_relocate (op : UnaryOp) (v : Value) :
    (v.relocate f).unary op = (v.unary op).map (relocate f) := by
  cases op with
  | not => exact congrArg (fun b ↦ Except.ok (bool !b)) (v.isTruthy_relocate f)
  | negate =>
    cases v with
    | object id c => simp [relocate, unary, Except.map, typeName]
    | _ => rfl

/-- A binary operator gives the same value for values that were moved, or the same cause. -/
theorem binary_relocate (op : BinaryOp) (left right : Value) :
    (left.relocate f).binary op (right.relocate f) = (left.binary op right).map (relocate f) := by
  have hmismatch : (.error (.unsupportedOperands op.symbol (left.relocate f).typeName
      (right.relocate f).typeName) : Except Cause Value) =
      .error (.unsupportedOperands op.symbol left.typeName right.typeName) := by
    rw [typeName_relocate, typeName_relocate]
  cases op with
  | or | and => rfl
  | equal => exact congrArg (fun b ↦ Except.ok (bool b)) (equals_relocate f left right)
  | notEqual => exact congrArg (fun b ↦ Except.ok (bool !b)) (equals_relocate f left right)
  | _ =>
    cases left with
    | number x => cases right <;> first | rfl | exact hmismatch
    | string s => cases right <;> first | rfl | exact hmismatch
    | _ => exact hmismatch

theorem decides_relocate (op : BinaryOp) (v : Value) :
    (v.relocate f).decides op = v.decides op := by
  unfold decides
  rw [isTruthy_relocate]

theorem stepped_relocate (op : StepOp) (v : Value) :
    (v.relocate f).stepped op = (v.stepped op).map (relocate f) := by
  cases v with
  | object id c => cases op <;> simp [relocate, stepped, Except.map, typeName]
  | _ => cases op <;> rfl

end Value

/-! ### Tables -/

/-- The table with each span in its values replaced. -/
def Table.relocate (t : Table) : Table := t.map fun (x, v) ↦ (x, v.relocate f)

namespace Table

theorem get?_relocate (x : String) (t : Table) :
    (t.relocate f).get? x = (t.get? x).map (Value.relocate f) :=
  lookup_map Function.injective_id _ x t

/-- To bind a moved value is to move the table in which the value is bound. -/
theorem set_relocate (x : String) (v : Value) (t : Table) :
    set x (v.relocate f) (t.relocate f) = (set x v t).relocate f := by
  induction t with
  | nil => rfl
  | cons entry rest ih =>
    obtain ⟨y, w⟩ := entry
    show (if x = y then _ else (y, w.relocate f) :: set x _ (relocate f rest)) = _
    rw [set, ih]
    split <;> rfl

theorem names_relocate (t : Table) : (t.relocate f).names = t.names := by
  unfold names relocate
  rw [List.map_map]
  rfl

end Table

/-! ### Heaps -/

/-- The heap with each span in its values replaced. -/
def Heap.relocate (h : Heap) : Heap :=
  { h with
    frames := h.frames.map (Table.relocate f)
    objects := h.objects.map (Table.relocate f) }

/-- What is at an index may be changed before or after all is mapped. -/
theorem modify_map {α : Type} {m : α → α} {g g' : α → α} (hg : ∀ a, g' (m a) = m (g a))
    (xs : Array α) (i : Nat) : (xs.map m).modify i g' = (xs.modify i g).map m := by
  refine Array.ext_getElem? fun j ↦ ?_
  rw [Array.getElem?_map, Array.getElem?_modify, Array.getElem?_modify, Array.getElem?_map]
  split
  · cases xs[j]? with
    | none => rfl
    | some a => exact congrArg some (hg a)
  · rfl

/-- The property with each span in it replaced. -/
def Property.relocate : Property → Property
  | .field v => .field (v.relocate f)
  | .method c => .method (c.relocate f)

namespace Heap

variable (h : Heap) (c : Chain) (x : String) (v : Value)

theorem frame_relocate (id : FrameId) : (h.relocate f).frame id = (h.frame id).relocate f := by
  unfold frame relocate
  rw [Array.getElem?_map]
  cases h.frames[id]? <;> rfl

theorem fields_relocate (id : Nat) : (h.relocate f).fields id = (h.fields id).relocate f := by
  unfold fields relocate
  rw [Array.getElem?_map]
  cases h.objects[id]? <;> rfl

theorem setIn_relocate (id : FrameId) :
    (h.relocate f).setIn id x (v.relocate f) = (h.setIn id x v).relocate f := by
  unfold setIn relocate
  rw [modify_map (Table.set_relocate f x v)]

theorem setField_relocate (id : Nat) :
    (h.relocate f).setField id x (v.relocate f) = (h.setField id x v).relocate f := by
  unfold setField relocate
  rw [modify_map (Table.set_relocate f x v)]

theorem define_relocate :
    (h.relocate f).define c x (v.relocate f) = (h.define c x v).relocate f :=
  h.setIn_relocate f x v c.frame

/-- The frame that binds a name is the same after values have been moved. -/
theorem binder?_relocate : (h.relocate f).binder? c x = h.binder? c x := by
  unfold binder?
  simp only [frame_relocate, Table.get?_relocate, Option.isSome_map]

/-- What a variable at a distance holds is moved with all other values. -/
theorem getAt_relocate (depth : Nat) :
    (h.relocate f).getAt c x depth =
      (h.getAt c x depth).map (Option.map (Value.relocate f)) := by
  unfold getAt
  cases ancestor c depth with
  | error a => rfl
  | ok id =>
    simp only [Except.map, frame_relocate, Table.get?_relocate]

/-! What is made anew -/

theorem child_relocate (bound : Table) :
    (h.relocate f).child c (bound.relocate f) =
      ((h.child c bound).1, (h.child c bound).2.relocate f) := by
  simp [child, relocate]

theorem newObject_relocate (above : Class) :
    (h.relocate f).newObject (above.relocate f) =
      ((h.newObject above).1.relocate f, (h.newObject above).2.relocate f) := by
  simp [newObject, relocate, Value.relocate, Table.relocate]

theorem newFunction_relocate (closure : Closure) :
    (h.relocate f).newFunction (closure.relocate f) =
      ((h.newFunction closure).1.relocate f, (h.newFunction closure).2.relocate f) := rfl

/-- To bind a moved method is to move the bound method, in a frame of the same number. -/
theorem bindMethod_relocate (method : Closure) :
    (h.relocate f).bindMethod (method.relocate f) (v.relocate f) =
      ((h.bindMethod method v).1.relocate f, (h.bindMethod method v).2.relocate f) := by
  have hchild := h.child_relocate f method.scope [("this", v)]
  change (h.relocate f).child method.scope [("this", v.relocate f)] = _ at hchild
  unfold bindMethod
  rw [Closure.scope_relocate, hchild]
  rfl

/-- A class that is made of moved methods is the moved class, of the same number. -/
theorem newClass_relocate (above : Option Class) (methods : List FunDecl) :
    (h.relocate f).newClass c x (above.map (Class.relocate f)) (methods.map (FunDecl.relocate f)) =
      ((h.newClass c x above methods).1.relocate f,
        (h.newClass c x above methods).2.relocate f) := by
  have hmethods (scope : Chain) :
      ((methods.map (FunDecl.relocate f)).map fun g ↦
        (g.name, { function := g, scope, isInitializer := g.isInitializer : Closure })).reverse =
      ((methods.map fun g ↦
        (g.name, { function := g, scope, isInitializer := g.isInitializer : Closure })).reverse).map
          fun (y, closure) ↦ (y, closure.relocate f) := by
    rw [List.map_reverse, List.map_map, List.map_map]
    refine congrArg List.reverse (List.map_congr_left fun g _ ↦ ?_)
    simp [Closure.relocate]
  cases above with
  | none =>
    unfold newClass
    simp only [Option.map_none, hmethods]
    rfl
  | some above =>
    have hchild := h.child_relocate f c [("super", .cls above)]
    change (h.relocate f).child c [("super", .cls (above.relocate f))] = _ at hchild
    unfold newClass
    simp only [Option.map_some, hmethods, hchild]
    rfl

/-- A field or a method is found alike, in the instance or in its class. -/
theorem property_relocate (id : Nat) (cls : Class) :
    (h.relocate f).property id (cls.relocate f) x =
      (h.property id cls x).map (Property.relocate f) := by
  unfold property
  rw [fields_relocate, Table.get?_relocate]
  cases (h.fields id).get? x with
  | some v => rfl
  | none =>
    rw [Class.method?_relocate, Class.name_relocate]
    cases cls.method? x <;> rfl

end Heap

end LoxLang
