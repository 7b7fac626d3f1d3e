import LoxLang.Proofs.Lexical.Plan
import Mathlib.Data.List.Forall2

/-!
# Values of the two machines

When a value of the machine with distances is the same as one of the machine with lexical
environments (`ValueRel`). Functions are the same if they have the same text, which fits the layers
of the place where they were made, and if the frames of the one and the environment of the other
belong to these layers. A method that is not bound yet stands one layer further out than it expects
to be called: the layer of its receiver is added when it is bound.

Nothing that values are asked for tells the two machines apart.
-/

namespace LoxLang

/-- Where a method may be called, `this` is a local variable, and in a class with a superclass so is
`super`, declared one layer further out. -/
def Surrounds (cx : Surroundings) (L : Layers) : Prop :=
  ∀ c, cx.cls = some c →
    ∃ d, L.hops? "this" = some d ∧ (c.inherits = true → L.hops? "super" = some (d + 1))

namespace Surrounds

variable {cx : Surroundings} {L : Layers}

theorem top : Surrounds {} [] := nofun

/-- A layer that declares neither of the two words does not matter. -/
theorem cons (h : Surrounds cx L) {l : Layer} (hthis : "this" ∉ l.names)
    (hsuper : "super" ∉ l.names) : Surrounds cx (l :: L) := by
  intro c hc
  obtain ⟨d, hd, hd'⟩ := h c hc
  refine ⟨d + 1, ?_, fun hinherits ↦ ?_⟩
  · rw [Layers.hops?_cons, if_neg hthis, hd]
    rfl
  · rw [Layers.hops?_cons, if_neg hsuper, hd' hinherits]
    rfl

end Surrounds

/-- A declaration of another name changes no distance. -/
theorem Layers.hops?_declare_of_ne {x y : String} (h : y ≠ x) (L : Layers) :
    (L.declare x).hops? y = L.hops? y := by
  cases L with
  | nil => rfl
  | cons l L => simp [declare, hops?_cons, h]

/-- To declare a name does not change what surrounds the place. -/
theorem Surrounds.declare {cx : Surroundings} {L : Layers} (h : Surrounds cx L) {x : String}
    (hx : IsName x) : Surrounds cx (L.declare x) := by
  intro c hc
  rw [Layers.hops?_declare_of_ne hx.1.symm, Layers.hops?_declare_of_ne hx.2.symm]
  exact h c hc

section Values

variable (K : Reference → Prop) (P : Plan)

/-- The two functions are the same. -/
inductive FunctionRel : Closure → Lexical.Closure → Prop
  | mk {cx : Surroundings} {L : Layers} {kind : FunctionKind} {f : FunDecl} {scope : Chain}
      {e : Lexical.Env} {b : Bool} (sees : P.Sees L scope.frames e.names)
      (surrounds : Surrounds cx L) (fits : FitsFunction K cx L kind f)
      (this : b = true → L.hops? "this" = some 0)
      (initializer : b = true → kind = .initializer) : FunctionRel ⟨f, scope, b⟩ ⟨f, e, b⟩

/-- The two methods are the same, neither of them bound to an instance. -/
inductive MethodRel : Closure → Lexical.Closure → Prop
  | mk {cx : Surroundings} {L : Layers} {cls : ClassContext} {kind : FunctionKind} {f : FunDecl}
      {scope : Chain} {e : Lexical.Env} {b : Bool} (sees : P.Sees L scope.frames e.names)
      (hcls : cx.cls = some cls) (super : cls.inherits = true → L.hops? "super" = some 0)
      (fits : FitsFunction K cx (L.ofMethod f) kind f)
      (initializer : b = true → kind = .initializer) : MethodRel ⟨f, scope, b⟩ ⟨f, e, b⟩

/-- The two lists have the same methods, in the same order. -/
def MethodsRel : List (String × Closure) → List (String × Lexical.Closure) → Prop :=
  List.Forall₂ fun m m' ↦ m'.1 = m.1 ∧ MethodRel K P m.2 m'.2

/-- The two classes are the same. -/
inductive ClassRel : Class → Lexical.Class → Prop
  | base {id : Nat} {name : String} {methods : List (String × Closure)}
      {methods' : List (String × Lexical.Closure)} (h : MethodsRel K P methods methods') :
      ClassRel (.mk id name none methods) (.mk id name none methods')
  | derived {id : Nat} {name : String} {above : Class} {above' : Lexical.Class}
      {methods : List (String × Closure)} {methods' : List (String × Lexical.Closure)}
      (habove : ClassRel above above') (h : MethodsRel K P methods methods') :
      ClassRel (.mk id name (some above) methods) (.mk id name (some above') methods')

/-- The two values are the same. -/
inductive ValueRel : Value → Lexical.Value → Prop
  | nil : ValueRel .nil .nil
  | bool (b : Bool) : ValueRel (.bool b) (.bool b)
  | number (x : Float) : ValueRel (.number x) (.number x)
  | string (s : String) : ValueRel (.string s) (.string s)
  | native (n : Native) : ValueRel (.native n) (.native n)
  | function (id : Nat) {c : Closure} {c' : Lexical.Closure} (h : FunctionRel K P c c') :
      ValueRel (.function id c) (.function id c')
  | cls {c : Class} {c' : Lexical.Class} (h : ClassRel K P c c') : ValueRel (.cls c) (.cls c')
  | object (id : Nat) {c : Class} {c' : Lexical.Class} (h : ClassRel K P c c') :
      ValueRel (.object id c) (.object id c')

end Values

/-- Both are the same fault, or both are results and they are related. -/
inductive ResultRel {α β : Type} (R : α → β → Prop) : Except Cause α → Except Cause β → Prop
  | ok {a : α} {b : β} (h : R a b) : ResultRel R (.ok a) (.ok b)
  | error (cause : Cause) : ResultRel R (.error cause) (.error cause)

theorem ResultRel.error_of_eq {α β : Type} {R : α → β → Prop} {cause cause' : Cause}
    (h : cause = cause') : ResultRel R (.error cause) (.error cause') :=
  h ▸ .error cause

/-! ### Growing plans -/

section Mono

variable {K K' : Reference → Prop} {P P' : Plan}

/-- Functions are related still when more references are known and more frames have been made. -/
theorem FunctionRel.mono (hK : ∀ r, K r → K' r) (hP : P.Le P') {c : Closure} {c' : Lexical.Closure}
    (h : FunctionRel K P c c') : FunctionRel K' P' c c' := by
  cases h with
  | mk sees surrounds fits this initializer =>
    exact .mk (sees.mono hP) surrounds (fits.mono hK) this initializer

theorem MethodRel.mono (hK : ∀ r, K r → K' r) (hP : P.Le P') {c : Closure} {c' : Lexical.Closure}
    (h : MethodRel K P c c') : MethodRel K' P' c c' := by
  cases h with
  | mk sees hcls super fits initializer =>
    exact .mk (sees.mono hP) hcls super (fits.mono hK) initializer

theorem MethodsRel.mono (hK : ∀ r, K r → K' r) (hP : P.Le P') {ms : List (String × Closure)}
    {ms' : List (String × Lexical.Closure)} (h : MethodsRel K P ms ms') :
    MethodsRel K' P' ms ms' :=
  List.Forall₂.imp (fun _ _ hm ↦ ⟨hm.1, hm.2.mono hK hP⟩) h

/-- Classes are related still when more references are known and more frames have been made. -/
theorem ClassRel.mono (hK : ∀ r, K r → K' r) (hP : P.Le P') {c : Class} {c' : Lexical.Class}
    (h : ClassRel K P c c') : ClassRel K' P' c c' := by
  induction h with
  | base h => exact .base (h.mono hK hP)
  | derived _ h ih => exact .derived ih (h.mono hK hP)

/-- Values are related still when more references are known and more frames have been made. -/
theorem ValueRel.mono (hK : ∀ r, K r → K' r) (hP : P.Le P') {v : Value} {v' : Lexical.Value}
    (h : ValueRel K P v v') : ValueRel K' P' v v' := by
  cases h with
  | nil => exact .nil
  | bool b => exact .bool b
  | number x => exact .number x
  | string s => exact .string s
  | native n => exact .native n
  | function id h => exact .function id (h.mono hK hP)
  | cls h => exact .cls (h.mono hK hP)
  | object id h => exact .object id (h.mono hK hP)

end Mono

/-! ### Classes -/

variable {K : Reference → Prop} {P : Plan}

/-- Related functions have the same code. -/
theorem FunctionRel.function {c : Closure} {c' : Lexical.Closure} (h : FunctionRel K P c c') :
    c'.function = c.function := by
  cases h
  rfl

theorem MethodRel.function {c : Closure} {c' : Lexical.Closure} (h : MethodRel K P c c') :
    c'.function = c.function := by
  cases h
  rfl

/-- Related tables of methods have methods of the same names, and these are related. -/
theorem MethodsRel.lookup {ms : List (String × Closure)} {ms' : List (String × Lexical.Closure)}
    (h : MethodsRel K P ms ms') (x : String) :
    Option.Rel (MethodRel K P) (ms.lookup x) (ms'.lookup x) := by
  unfold MethodsRel at h
  induction h with
  | nil => exact .none
  | @cons m m' _ _ hm _ ih =>
    obtain ⟨y, c⟩ := m
    obtain ⟨y', c'⟩ := m'
    obtain ⟨rfl, hc⟩ := hm
    simp only [List.lookup_cons]
    cases x == y' with
    | true => exact .some hc
    | false => exact ih

namespace ClassRel

variable {c : Class} {c' : Lexical.Class}

/-- Related classes have the same number. -/
theorem id_eq (h : ClassRel K P c c') : c'.id = c.id := by
  cases h <;> rfl

/-- Related classes have the same name. -/
theorem name_eq (h : ClassRel K P c c') : c'.name = c.name := by
  cases h <;> rfl

/-- Related classes have or inherit the same methods, which are related. -/
theorem method? (h : ClassRel K P c c') (x : String) :
    Option.Rel (MethodRel K P) (c.method? x) (c'.method? x) := by
  induction h with
  | base h => exact h.lookup x
  | derived _ h ih =>
    have hm := h.lookup x
    unfold Class.method? Lexical.Class.method?
    revert hm
    cases List.lookup x _ <;> cases List.lookup x _ <;> intro hm
    · exact ih
    · cases hm
    · cases hm
    · exact hm

/-- Related classes have related initializers, or both have none. -/
theorem initializer? (h : ClassRel K P c c') :
    Option.Rel (MethodRel K P) c.initializer? c'.initializer? :=
  h.method? _

/-- Related classes are called with as many arguments. -/
theorem arity_eq (h : ClassRel K P c c') : c'.arity = c.arity := by
  have hi := h.initializer?
  unfold Class.arity Lexical.Class.arity
  revert hi
  generalize c.initializer? = i
  generalize c'.initializer? = i'
  intro hi
  cases hi with
  | none => rfl
  | some hm => exact congrArg (·.params.length) hm.function

end ClassRel

/-! ### What values are asked for -/

namespace ValueRel

variable {v w : Value} {v' w' : Lexical.Value}

/-- Related values decide conditions alike. -/
theorem isTruthy_eq (h : ValueRel K P v v') : v'.isTruthy = v.isTruthy := by
  cases h with
  | bool b => cases b <;> rfl
  | _ => rfl

/-- Related values are of the same type. -/
theorem typeName_eq (h : ValueRel K P v v') : v'.typeName = v.typeName := by
  cases h with
  | object id h => exact h.name_eq
  | _ => rfl

/-- Related values are printed alike. -/
theorem display_eq (h : ValueRel K P v v') : v'.display = v.display := by
  cases h with
  | bool b => cases b <;> rfl
  | function id h => simp [Value.display, Lexical.Value.display, h.function]
  | cls h => exact h.name_eq
  | object id h => simp [Value.display, Lexical.Value.display, h.name_eq]
  | _ => rfl

/-- Whether values are equal is told alike by related values. -/
theorem equals_eq (h : ValueRel K P v v') (hw : ValueRel K P w w') :
    v'.equals w' = v.equals w := by
  cases h <;> cases hw <;> try rfl
  case cls.cls h _ _ hw => simp [Value.equals, Lexical.Value.equals, h.id_eq, hw.id_eq]

/-- Related values can be called both, or neither can. -/
theorem callable_eq (h : ValueRel K P v v') : v'.callable = v.callable := by
  cases h with
  | object id h => simp [Value.callable, Lexical.Value.callable, Value.typeName,
      Lexical.Value.typeName, h.name_eq]
  | _ => rfl

theorem signature_eq (h : ValueRel K P v v') : v'.signature = v.signature := by
  cases h with
  | function id h => simp [Value.signature, Lexical.Value.signature, h.function, Closure.arity,
      Lexical.Closure.arity]
  | cls h => simp [Value.signature, Lexical.Value.signature, h.name_eq, h.arity_eq]
  | object id h => simp [Value.signature, Lexical.Value.signature, Value.typeName,
      Lexical.Value.typeName, h.name_eq]
  | _ => rfl

/-- Related values accept as many arguments. -/
theorem accepts_eq (h : ValueRel K P v v') (count : Nat) : v'.accepts count = v.accepts count := by
  unfold Value.accepts Lexical.Value.accepts
  rw [h.signature_eq]

/-- Related values are the same instance of related classes, or neither is an instance. -/
theorem asObject (h : ValueRel K P v v') (name : String) :
    ResultRel (fun o o' ↦ o'.1 = o.1 ∧ ClassRel K P o.2 o'.2) (v.asObject name)
      (v'.asObject name) := by
  cases h with
  | object id h => exact .ok ⟨rfl, h⟩
  | _ => exact .error _

/-- Related values decide logical operators alike. -/
theorem decides_eq (h : ValueRel K P v v') (op : BinaryOp) : v'.decides op = v.decides op := by
  cases op <;> simp [Value.decides, Lexical.Value.decides, h.isTruthy_eq]

/-- A unary operator gives related values for related operands, or the same cause. -/
theorem unary (h : ValueRel K P v v') (op : UnaryOp) :
    ResultRel (ValueRel K P) (v.unary op) (v'.unary op) := by
  have htype := h.typeName_eq.symm
  cases op with
  | not =>
    simp only [Value.unary, Lexical.Value.unary, h.isTruthy_eq]
    exact .ok (.bool _)
  | negate =>
    cases h with
    | number x => exact .ok (.number _)
    | _ => exact .error_of_eq (congrArg (Cause.unsupportedOperand _) htype)

/-- A step operator gives related values for related operands, or the same cause. -/
theorem stepped (h : ValueRel K P v v') (op : StepOp) :
    ResultRel (ValueRel K P) (v.stepped op) (v'.stepped op) := by
  have htype := h.typeName_eq.symm
  cases h with
  | number x => cases op <;> exact .ok (.number _)
  | _ => cases op <;> exact .error_of_eq (congrArg (Cause.unsupportedOperand _) htype)

/-- A binary operator gives related values for related operands, or the same cause. -/
theorem binary (h : ValueRel K P v v') (hw : ValueRel K P w w') (op : BinaryOp) :
    ResultRel (ValueRel K P) (v.binary op w) (v'.binary op w') := by
  have htypes : Cause.unsupportedOperands op.symbol v.typeName w.typeName =
      Cause.unsupportedOperands op.symbol v'.typeName w'.typeName := by
    rw [h.typeName_eq, hw.typeName_eq]
  cases op with
  | or | and =>
    unfold Value.binary Lexical.Value.binary
    exact .ok hw
  | equal | notEqual =>
    simp only [Value.binary, Lexical.Value.binary, h.equals_eq hw]
    exact .ok (.bool _)
  | _ =>
    -- only numbers and strings have such operators, and they are the same on both sides
    cases h <;> cases hw <;> first
      | exact .error_of_eq htypes
      | exact .ok (.number _)
      | exact .ok (.string _)
      | exact .ok (.bool _)

end ValueRel

theorem ValueRel.ofLiteral (l : Literal) : ValueRel K P (.ofLiteral l) (.ofLiteral l) := by
  cases l with
  | nil => exact .nil
  | bool b => exact .bool b
  | number x => exact .number x
  | string s => exact .string s

end LoxLang
