import LoxLang.Machine

/-!
# Causes of faults

What goes wrong with values and variables goes wrong for ordinary causes: those that come up only
while a program runs, and that have nothing to do with how deep its calls are nested.
-/

namespace LoxLang

/-- A cause that comes up only while a program runs, and not for the depth of its calls. -/
def Cause.IsOrdinary (c : Cause) : Prop :=
  c.isStatic = false ∧ (c.category == .recursion) = false

/-- If there is no result, then for an ordinary cause. -/
def FailsOrdinarily {α : Type} (r : Except Cause α) : Prop :=
  ∀ cause, r = .error cause → cause.IsOrdinary

namespace Value

theorem fails_unary (op : UnaryOp) (v : Value) : FailsOrdinarily (v.unary op) := by
  intro cause h
  unfold unary at h
  split at h <;> cases h
  exact ⟨rfl, rfl⟩

theorem fails_binary (op : BinaryOp) (left right : Value) :
    FailsOrdinarily (left.binary op right) := by
  intro cause h
  unfold binary at h
  split at h <;> cases h
  exact ⟨rfl, rfl⟩

theorem fails_stepped (op : StepOp) (v : Value) : FailsOrdinarily (v.stepped op) := by
  intro cause h
  unfold stepped at h
  split at h <;> cases h
  exact ⟨rfl, rfl⟩

theorem fails_callable (v : Value) : FailsOrdinarily v.callable := by
  intro cause h
  unfold callable at h
  split at h <;> cases h
  exact ⟨rfl, rfl⟩

theorem fails_accepts (v : Value) (count : Nat) : FailsOrdinarily (v.accepts count) := by
  intro cause h
  unfold accepts signature at h
  cases v with
  | native _ | function _ _ | cls _ =>
    simp only [bind, Except.bind] at h
    split at h <;> cases h
    exact ⟨rfl, rfl⟩
  | _ =>
    cases h
    exact ⟨rfl, rfl⟩

/-- What accepts any number of arguments can be called. -/
theorem callable_of_accepts {v : Value} {count : Nat} (h : v.accepts count = .ok ()) :
    v.callable = .ok () := by
  cases v with
  | native _ | function _ _ | cls _ => rfl
  | _ => cases h

/-- Whether a call of the value executes the body of a function. -/
def hasBody : Value → Bool
  | function .. => true
  | cls c => c.initializer?.isSome
  | _ => false

end Value

theorem Heap.fails_property (h : Heap) (id : Nat) (c : Class) (name : String) :
    FailsOrdinarily (h.property id c name) := by
  intro cause hcause
  unfold property at hcause
  split at hcause
  · cases hcause
  · split at hcause <;> cases hcause
    exact ⟨rfl, rfl⟩

/-- The trouble with a variable that is not there: no global one has its name, or the environments
are not as its distance says. -/
def Trouble.IsMissing (span : Span) (name : String) (t : Trouble) : Prop :=
  t = .fault ⟨.notDefined name, span⟩ ∨ ∃ a, t = .anomaly a

theorem Trouble.IsMissing.isOrdinary {span : Span} {name : String} {f : Fault}
    (h : (Trouble.fault f).IsMissing span name) : f.cause.IsOrdinary := by
  obtain hf | ⟨a, ha⟩ := h
  · obtain rfl := Trouble.fault.inj hf
    exact ⟨rfl, rfl⟩
  · cases ha

namespace State

variable {s : State} {table : Distances} {span : Span} {name : String} {t : Trouble}

theorem isMissing_of_frameOf (h : s.frameOf table span name = .error t) :
    t.IsMissing span name := by
  unfold frameOf at h
  split at h
  · rename_i depth _
    cases ha : Heap.ancestor s.scope depth <;> rw [ha] at h <;> cases h
    exact .inr ⟨_, rfl⟩
  · split at h <;> cases h
    exact .inl rfl

theorem isMissing_of_lookup (h : s.lookup table span name = .error t) : t.IsMissing span name := by
  unfold lookup at h
  split at h
  · rename_i t ht
    cases h
    exact isMissing_of_frameOf ht
  · split at h <;> cases h
    exact .inr ⟨_, rfl⟩

end State

end LoxLang
