import LoxLang.Proofs.Contents
import Mathlib.Data.List.Induction

/-!
# Lineages

The lineage of a class is the class itself and all above it. A method is looked up along it, and the
nearest class that declares the method counts (`Class.method?_eq`); where this one declares it more
than once, the last declaration does (`State.Declares.lookup`).
-/

namespace LoxLang

namespace Class

/-- The class and those above it, the nearest first. -/
def lineage : Class → List Class
  | mk id name none methods => [mk id name none methods]
  | mk id name (some above) methods => mk id name (some above) methods :: above.lineage

/-- A method is found in the nearest class of the lineage that declares it. -/
theorem method?_eq (name : String) (c : Class) :
    c.method? name = c.lineage.findSome? (·.methods.lookup name) := by
  induction c using lineage.induct with
  | case1 id x methods =>
    rw [method?, lineage, List.findSome?_cons]
    cases h : methods.lookup name <;> simp [Class.methods, h]
  | case2 id x above methods ih =>
    rw [method?, lineage, List.findSome?_cons, ih]
    cases h : methods.lookup name <;> simp [Class.methods, h]

theorem mem_lineage_self (c : Class) : c ∈ c.lineage := by
  obtain ⟨id, name, above, methods⟩ := c
  cases above <;> exact List.mem_cons_self

end Class

/-- The classes that come with a value: those of the lineage of a class, or of the class of an
instance. -/
def Value.lineage : Value → List Class
  | .cls c | .object _ c => c.lineage
  | _ => []

theorem Value.Plain.lineage_eq_nil {v : Value} (h : v.Plain) : v.lineage = [] := by
  cases v <;> first | rfl | exact h.elim

/-- Of several methods of one name the last counts. -/
theorem FunDecl.lookup_methods (scope : Chain) (decls : List FunDecl) (x : String) :
    (FunDecl.methods scope decls).lookup x =
      ((decls.filter (·.name == x)).getLast?).map fun f ↦ ⟨f, scope, f.isInitializer⟩ := by
  induction decls using List.reverseRecOn with
  | nil => rfl
  | append_singleton decls f ih =>
    unfold methods at ih ⊢
    rw [List.map_append, List.reverse_append, List.filter_append]
    simp only [List.map_cons, List.map_nil, List.reverse_singleton, List.singleton_append,
      List.lookup_cons]
    by_cases hx : x = f.name
    · simp [hx]
    · simp [Ne.symm hx, ih, beq_false_of_ne hx]

namespace State.Declares

variable {s s' : State} {table : Distances} {c : Class} {decls : List FunDecl} {scope : Chain}

theorem lookup (h : s.Declares c decls scope) (x : String) : c.methods.lookup x =
    ((decls.filter (·.name == x)).getLast?).map fun f ↦ ⟨f, scope, f.isInitializer⟩ := by
  cases h with
  | base _ | derived _ => exact FunDecl.lookup_methods ..

/-- A class has the number that is next. -/
theorem id_eq (h : s.Declares c decls scope) : c.id = s.heap.nextClass := by
  cases h with
  | base _ | derived _ => rfl

theorem unique (h : s.Declares c decls scope) {c' : Class} {decls' : List FunDecl} {scope' : Chain}
    (h' : s.Declares c' decls' scope') : c' = c := by
  cases h with
  | base hcontrol | derived hcontrol =>
    cases h' with
    | base hcontrol' | derived hcontrol' =>
      cases hcontrol.symm.trans hcontrol' <;> rfl

theorem nextClass (h : s.Declares c decls scope) (hstep : s.Steps table s') :
    s'.heap.nextClass = s.heap.nextClass + 1 := by
  refine hstep.ensured (p := fun s' ↦ s'.heap.nextClass = s.heap.nextClass + 1) ?_
  unfold State.step
  cases h with
  | base hcontrol | derived hcontrol =>
    rw [hcontrol]
    rfl

end State.Declares

end LoxLang
