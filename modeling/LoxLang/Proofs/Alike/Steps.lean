import LoxLang.Proofs.Alike.States

/-!
# Alike programs step by step

At corresponding points of their runs, alike programs do the same (`StateAlike.step`): both go on,
and the second one catches up with the first, or both ask the same of the outside, or both stop for
the same reason.
-/

namespace LoxLang

namespace Lexical

open Pairing (Refers)

variable {ω : Leeway} {J : Joint} {c c' : Control} {d : Nat} {m m' : Memory}

/-- What accepts the arguments of a call gets as many as it expects. -/
theorem Value.length_of_accepts {v : Value} {args : List Value}
    (h : v.accepts args.length = .ok ()) {name : String} {arity : Nat}
    (hv : v.signature = .ok (name, arity)) : args.length = arity := by
  unfold Value.accepts at h
  rw [hv] at h
  by_cases harity : arity = args.length
  · exact harity.symm
  · simp [bind, Except.bind, harity, throw, throwThe, MonadExceptOf.throw] at h

namespace MemoryAlike

variable (H : MemoryAlike ω m m') {k k' : AfterValue} {v v' w w' : Value}
include H

/-! ### Going on -/

/-- The same fault at the same place leaves states that are alike. -/
theorem fault (span : Span) (cause : Cause) :
    StateAlike ω (State.fault ⟨c, J.left, d, m⟩ span cause)
      (State.fault ⟨c', J.right, d, m'⟩ span cause) :=
  .mk H (.stuck (.refl _))

/-- Values that are alike are given to pending work that is alike. -/
theorem give (hv : ValueAlike ω v v') (next : AfterValueAlike ω J k k') :
    StateAlike ω (State.give ⟨c, J.left, d, m⟩ v k) (State.give ⟨c', J.right, d, m'⟩ v' k') :=
  .mk H (.value hv next)

/-- Results that are alike are given to pending work that is alike, or they are the same fault. -/
theorem giveOr {result result' : Except Cause Value}
    (hresult : ResultRel (ValueAlike ω) result result') (next : AfterValueAlike ω J k k')
    (span : Span) :
    StateAlike ω (State.giveOr ⟨c, J.left, d, m⟩ span result k)
      (State.giveOr ⟨c', J.right, d, m'⟩ span result' k') := by
  cases hresult with
  | ok hv => exact H.give hv next
  | error cause => exact H.fault span cause

/-! ### Variables -/

variable (c c' d) in
/-- Both find alike values, or neither finds one and the reason is alike. -/
theorem lookup {x x' : String} (hx : Refers ω J.pairing x x') (span : Span) :
    (∃ v v', State.lookup ⟨c, J.left, d, m⟩ span x = .ok v ∧
      State.lookup ⟨c', J.right, d, m'⟩ span x' = .ok v' ∧ ValueAlike ω v v') ∨
    ∃ t t', State.lookup ⟨c, J.left, d, m⟩ span x = .error t ∧
      State.lookup ⟨c', J.right, d, m'⟩ span x' = .error t' ∧ TroubleAlike ω t t' := by
  unfold State.lookup
  simp only [Joint.find?_eq hx.paired]
  cases hfind : J.left.find? x with
  | some cell =>
    have hcell := H.cell cell
    simp only
    generalize m.cell cell = w at hcell ⊢
    generalize m'.cell cell = w' at hcell ⊢
    cases hcell with
    | some hv => exact .inl ⟨_, _, rfl, rfl, hv⟩
    | none => exact .inr ⟨_, _, rfl, rfl, .missingLocal hx.name⟩
  | none =>
    obtain rfl := Joint.eq_of_find?_eq_none hx.paired hfind
    have hglobal := H.globals x'
    simp only
    generalize m.globals x' = w at hglobal ⊢
    generalize m'.globals x' = w' at hglobal ⊢
    cases hglobal with
    | some hv => exact .inl ⟨_, _, rfl, rfl, hv⟩
    | none => exact .inr ⟨_, _, rfl, rfl, .refl _⟩

/-- A variable is read. -/
theorem read {x x' : String} (hx : Refers ω J.pairing x x') (span : Span)
    (next : AfterValueAlike ω J k k') :
    StateAlike ω (State.read ⟨c, J.left, d, m⟩ span x k)
      (State.read ⟨c', J.right, d, m'⟩ span x' k') := by
  unfold State.read
  obtain ⟨v, v', hs, hs', hv⟩ | ⟨t, t', hs, hs', ht⟩ := H.lookup c c' d hx span
  · rw [hs, hs']
    exact H.give hv next
  · rw [hs, hs']
    exact .mk H (.stuck ht)

/-- A variable is written. -/
theorem write {x x' : String} (hx : Refers ω J.pairing x x') (span : Span)
    (hv : ValueAlike ω v v') (hw : ValueAlike ω w w') (next : AfterValueAlike ω J k k') :
    StateAlike ω (State.write ⟨c, J.left, d, m⟩ span x v w k)
      (State.write ⟨c', J.right, d, m'⟩ span x' v' w' k') := by
  unfold State.write
  simp only [Joint.find?_eq hx.paired]
  cases hfind : J.left.find? x with
  | some cell => exact .mk (H.fill cell hv) (.value hw next)
  | none =>
    obtain rfl := Joint.eq_of_find?_eq_none hx.paired hfind
    have hglobal : (m'.globals x').isSome = (m.globals x').isSome := by
      have hrel := H.globals x'
      generalize m.globals x' = w at hrel ⊢
      generalize m'.globals x' = w' at hrel ⊢
      cases hrel <;> rfl
    simp only [hglobal]
    split
    · exact .mk (H.setGlobal x' hv) (.value hw next)
    · exact H.fault span _

/-- A variable is stepped up or down. -/
theorem stepVariable {x x' : String} (hx : Refers ω J.pairing x x') (span : Span) (side : Side)
    (op : StepOp) (next : AfterValueAlike ω J k k') :
    StateAlike ω (State.stepVariable ⟨c, J.left, d, m⟩ span side op x k)
      (State.stepVariable ⟨c', J.right, d, m'⟩ span side op x' k') := by
  unfold State.stepVariable
  obtain ⟨v, v', hs, hs', hv⟩ | ⟨t, t', hs, hs', ht⟩ := H.lookup c c' d hx span
  · rw [hs, hs']
    have hresult := hv.stepped op
    simp only
    generalize v.stepped op = result at hresult ⊢
    generalize v'.stepped op = result' at hresult ⊢
    cases hresult with
    | ok hw =>
      cases side with
      | before => exact H.write hx span hw hw next
      | after => exact H.write hx span hw hv next
    | error cause => exact H.fault span cause
  · rw [hs, hs']
    exact .mk H (.stuck ht)

/-! ### Declarations -/

variable (c c' d) in
/-- A name is declared, which makes the same cell on both sides if it is local. -/
theorem declare (x x' : String) :
    ∃ m₁ m₁', State.declare ⟨c, J.left, d, m⟩ x = ⟨c, (J.declare x x' m.cells.size).left, d, m₁⟩ ∧
      State.declare ⟨c', J.right, d, m'⟩ x' =
        ⟨c', (J.declare x x' m.cells.size).right, d, m₁'⟩ ∧ MemoryAlike ω m₁ m₁' := by
  obtain ⟨names, isLocal⟩ := J
  cases isLocal with
  | false => exact ⟨m, m', rfl, rfl, H⟩
  | true =>
    obtain ⟨-, hright, H'⟩ := H.extend ⟨names, true⟩ x x' .none
    refine ⟨_, _, rfl, ?_, H'⟩
    exact congrArg (State.mk c' · d _) hright

variable (c c' d) in
/-- A declared name gets its first value. -/
theorem define {x x' : String} (hx : Paired J.pairing.names x x') (hv : ValueAlike ω v v') :
    ∃ m₁ m₁', State.define ⟨c, J.left, d, m⟩ x v = ⟨c, J.left, d, m₁⟩ ∧
      State.define ⟨c', J.right, d, m'⟩ x' v' = ⟨c', J.right, d, m₁'⟩ ∧ MemoryAlike ω m₁ m₁' := by
  unfold State.define
  simp only [Joint.find?_eq hx]
  cases hfind : J.left.find? x with
  | some cell => exact ⟨_, _, rfl, rfl, H.fill cell hv⟩
  | none =>
    obtain rfl := Joint.eq_of_find?_eq_none hx hfind
    exact ⟨_, _, rfl, rfl, H.setGlobal x' hv⟩

section Declarations

variable {r : Bool} {k k' : AfterStmt}

/-- Statements that end alike go back to pending work that is alike. -/
theorem finish {flow flow' : Flow} (hflow : FlowAlike ω r flow flow')
    (next : AfterStmtAlike ω r J k k') :
    StateAlike ω (State.finish ⟨c, J.left, d, m⟩ flow k)
      (State.finish ⟨c', J.right, d, m'⟩ flow' k') :=
  .mk H (.ended hflow next)

/-- A name gets its first value, and the statement ends. -/
theorem defineAndFinish {x x' : String} (hx : Paired J.pairing.names x x')
    (hv : ValueAlike ω v v') (next : AfterStmtAlike ω r J k k') :
    StateAlike ω ((State.define ⟨c, J.left, d, m⟩ x v).finish .normal k)
      ((State.define ⟨c', J.right, d, m'⟩ x' v').finish .normal k') := by
  obtain ⟨m₁, m₁', hs, hs', H₁⟩ := H.define c c' d hx hv
  rw [hs, hs']
  exact H₁.finish .normal next

/-- A variable is declared, and its first value is `nil`. -/
theorem bindNil {x x' : String} (hx : Paired (J.pairing.declare x x').names x x')
    (next : ∀ n, AfterStmtAlike ω r (J.declare x x' n) k k') :
    StateAlike ω (((State.declare ⟨c, J.left, d, m⟩ x).define x .nil).finish .normal k)
      (((State.declare ⟨c', J.right, d, m'⟩ x').define x' .nil).finish .normal k') := by
  obtain ⟨m₁, m₁', hs, hs', H₁⟩ := H.declare c c' d x x'
  rw [hs, hs']
  exact H₁.defineAndFinish (by rwa [Joint.pairing_declare]) .nil (next _)

/-- A function is declared. -/
theorem declareFunction {f f' : FunDecl}
    (hx : Paired (J.pairing.declare f.name f.name).names f.name f.name)
    (hf : FunDecl.Alike ω (J.pairing.declare f.name f.name) f f')
    (next : ∀ n, AfterStmtAlike ω r (J.after n (.funDecl f) (.funDecl f')) k k') :
    StateAlike ω (State.declareFunction ⟨c, J.left, d, m⟩ f k)
      (State.declareFunction ⟨c', J.right, d, m'⟩ f' k') := by
  unfold State.declareFunction
  obtain ⟨m₁, m₁', hs, hs', H₁⟩ := H.declare c c' d f.name f.name
  rw [← Joint.pairing_declare _ _ m.cells.size] at hx hf
  have hnext : J.after m.cells.size (.funDecl f) (.funDecl f') =
      J.declare f.name f.name m.cells.size :=
    congrArg (J.declare f.name · m.cells.size) hf.name_eq
  rw [hf.name_eq, hs, hs']
  obtain ⟨hv, H₂⟩ := H₁.newFunction (.mk (b := false) hf nofun)
  exact H₂.defineAndFinish hx hv (hnext ▸ next _)

/-- A class without a superclass is made, under a name that is declared already. -/
theorem declareClass {x : String} (hx : Paired J.pairing.names x x) {fs fs' : List FunDecl}
    (hfs : FunDecl.AllAlike ω J.pairing fs fs') (next : AfterStmtAlike ω r J k k') :
    StateAlike ω (State.declareClass ⟨c, J.left, d, m⟩ x none fs k)
      (State.declareClass ⟨c', J.right, d, m'⟩ x none fs' k') := by
  obtain ⟨hv, H₁⟩ := H.newClass x hfs
  exact H₁.defineAndFinish hx hv next

/-- A class with a superclass is made, under a name that is declared already. -/
theorem declareSubclass {x : String} (hx : Paired J.pairing.names x x) {above above' : Class}
    (habove : ClassAlike ω above above') {fs fs' : List FunDecl}
    (hfs : FunDecl.AllAlike ω (J.pairing.bind "super" "super") fs fs')
    (next : AfterStmtAlike ω r J k k') :
    StateAlike ω (State.declareClass ⟨c, J.left, d, m⟩ x (some above) fs k)
      (State.declareClass ⟨c', J.right, d, m'⟩ x (some above') fs' k') := by
  obtain ⟨hv, H₁⟩ := H.newSubclass x habove hfs
  exact H₁.defineAndFinish hx hv next

/-- A class is declared. -/
theorem beginClass {x : String} (hx : Paired (J.pairing.declare x x).names x x)
    {parent parent' : Option Name} (hparent : Option.Rel (fun p p' : Name ↦
      p'.span = p.span ∧ Refers ω (J.pairing.declare x x) p.text p'.text) parent parent')
    {fs fs' : List FunDecl}
    (hfs : FunDecl.AllAlike ω ((J.pairing.declare x x).ofClass parent) fs fs')
    (next : ∀ n, AfterStmtAlike ω r (J.declare x x n) k k') :
    StateAlike ω (State.beginClass ⟨c, J.left, d, m⟩ x parent fs k)
      (State.beginClass ⟨c', J.right, d, m'⟩ x parent' fs' k') := by
  unfold State.beginClass
  obtain ⟨m₁, m₁', hs, hs', H₁⟩ := H.declare c c' d x x
  rw [← Joint.pairing_declare _ _ m.cells.size] at hx hparent hfs
  rw [hs, hs']
  obtain ⟨m₂, m₂', hs, hs', H₂⟩ := H₁.define c c' d hx .nil
  rw [hs, hs']
  cases hparent with
  | none => exact H₂.declareClass hx hfs (next _)
  | @some p p' hp =>
    obtain ⟨text, span⟩ := p
    obtain ⟨text', span'⟩ := p'
    obtain ⟨rfl, hp⟩ := hp
    exact .mk H₂ (.evaluate (.var hp) (.inherit hx hfs (next _)))

end Declarations

/-! ### Functions and methods -/

/-- A function is evaluated. -/
theorem giveFunction {f f' : Closure} (hf : FunctionAlike ω f f')
    (next : AfterValueAlike ω J k k') :
    StateAlike ω (State.giveFunction ⟨c, J.left, d, m⟩ f k)
      (State.giveFunction ⟨c', J.right, d, m'⟩ f' k') := by
  obtain ⟨hv, H₁⟩ := H.newFunction hf
  exact .mk H₁ (.value hv next)

/-- A method of an instance is evaluated. -/
theorem giveMethod {f f' : Closure} (hf : MethodAlike ω f f') (hv : ValueAlike ω v v')
    (next : AfterValueAlike ω J k k') :
    StateAlike ω (State.giveMethod ⟨c, J.left, d, m⟩ f v k)
      (State.giveMethod ⟨c', J.right, d, m'⟩ f' v' k') := by
  obtain ⟨hbound, H₁⟩ := H.bindMethod hf hv
  exact H₁.giveFunction hbound next

variable (c c' d) in
/-- What paired names hold is alike. -/
theorem holds {x x' : String} (hx : Paired J.pairing.names x x') (e e' : Env) :
    Option.Rel (ValueAlike ω) (State.holds ⟨c, e, d, m⟩ J.left x)
      (State.holds ⟨c', e', d, m'⟩ J.right x') := by
  unfold State.holds
  rw [Joint.find?_eq hx]
  cases J.left.find? x with
  | none => exact .none
  | some cell => exact H.cell cell

/-- A method of the superclass is evaluated. -/
theorem readSuper (hthis : Paired J.pairing.names "this" "this")
    (hsuper : Paired J.pairing.names "super" "super") (span : Span) (x : String)
    (next : AfterValueAlike ω J k k') :
    StateAlike ω (State.readSuper ⟨c, J.left, d, m⟩ span x k)
      (State.readSuper ⟨c', J.right, d, m'⟩ span x k') := by
  unfold State.readSuper
  have habove := H.holds c c' d hsuper J.left J.right
  have hobject := H.holds c c' d hthis J.left J.right
  simp only
  generalize State.holds _ J.left "super" = o₁ at habove ⊢
  generalize State.holds _ J.right "super" = o₁' at habove ⊢
  generalize State.holds _ J.left "this" = o₂ at hobject ⊢
  generalize State.holds _ J.right "this" = o₂' at hobject ⊢
  have stuck : StateAlike ω (State.anomaly ⟨c, J.left, d, m⟩ .superNotAClass)
      (State.anomaly ⟨c', J.right, d, m'⟩ .superNotAClass) := .mk H (.stuck (.refl _))
  cases habove with
  | none => exact stuck
  | some habove =>
    cases habove with
    | cls habove =>
      cases hobject with
      | none => exact stuck
      | some hobject =>
        cases hobject with
        | object id hcls =>
          have hmethod := habove.method? x
          simp only
          generalize Class.method? x _ = f at hmethod ⊢
          generalize Class.method? x _ = f' at hmethod ⊢
          cases hmethod with
          | none =>
            rw [habove.name_eq]
            exact H.fault span _
          | some hf => exact H.giveMethod hf (.object id hcls) next
        | _ => exact stuck
    | _ => exact stuck

/-- A property of a value is evaluated. -/
theorem readProperty (span : Span) (x : String) (hv : ValueAlike ω v v')
    (next : AfterValueAlike ω J k k') :
    StateAlike ω (State.readProperty ⟨c, J.left, d, m⟩ span x v k)
      (State.readProperty ⟨c', J.right, d, m'⟩ span x v' k') := by
  unfold State.readProperty
  have hobject := hv.asObject x
  generalize v.asObject x = o at hobject ⊢
  generalize v'.asObject x = o' at hobject ⊢
  cases hobject with
  | error cause => exact H.fault span cause
  | @ok a b h =>
    obtain ⟨i, cls⟩ := a
    obtain ⟨i', cls'⟩ := b
    obtain ⟨rfl, hcls⟩ := h
    have hfield := H.fields i' x
    simp only
    generalize m.fields i' x = w at hfield ⊢
    generalize m'.fields i' x = w' at hfield ⊢
    cases hfield with
    | some hw => exact H.give hw next
    | none =>
      have hmethod := hcls.method? x
      simp only
      generalize cls.method? x = f at hmethod ⊢
      generalize cls'.method? x = f' at hmethod ⊢
      cases hmethod with
      | some hf => exact H.giveMethod hf (.object i' hcls) next
      | none =>
        rw [hcls.name_eq]
        exact H.fault span _

/-! ### Calls -/

variable {f f' : Closure} {args args' : List Value}

/-- The body of a function is entered. -/
theorem enter (hf : FunctionAlike ω f f') (hargs : List.Forall₂ (ValueAlike ω) args args')
    (hlength : args.length = f.arity) (next : AfterValueAlike ω J k k') (span : Span) :
    StateAlike ω (State.enter ⟨c, J.left, d, m⟩ span f args k)
      (State.enter ⟨c', J.right, d, m'⟩ span f' args' k') := by
  unfold State.enter
  split
  · exact H.fault span _
  have hcall := hf
  have harity := hf.arity_eq
  cases hf with
  | @mk J₁ g g' b hg this =>
    cases hg with
    | @mk _ gspan name ps ps' body body' hps hbody =>
      replace harity : ps'.length = ps.length := harity
      replace hlength : args.length = ps.length := hlength
      obtain ⟨J₂, hpairing, hleft, hright, H₂⟩ := H.extendAll J₁.inner harity hlength hargs
      replace hbody : Stmt.AllAlike ω J₂.pairing body body' := hpairing ▸ hbody
      change StateAlike ω
        ⟨.ended .normal (.sequence body (.leaveCall J.left _ k)),
          (m.extendAll J₁.inner.left (ps.zip args)).1, d + 1, _⟩
        ⟨.ended .normal (.sequence body' (.leaveCall J.right _ k')),
          (m'.extendAll J₁.inner.right (ps'.zip args')).1, d + 1, _⟩
      rw [hleft, hright]
      exact .mk H₂ (.ended (r := true) .normal (.sequence hbody fun _ ↦ .leaveCall hcall next))

/-- An instance is made. -/
theorem construct {cls cls' : Class} (hcls : ClassAlike ω cls cls')
    (hargs : List.Forall₂ (ValueAlike ω) args args') (hlength : args.length = cls.arity)
    (next : AfterValueAlike ω J k k') (span : Span) :
    StateAlike ω (State.construct ⟨c, J.left, d, m⟩ span cls args k)
      (State.construct ⟨c', J.right, d, m'⟩ span cls' args' k') := by
  obtain ⟨hobject, H₁⟩ := H.newObject hcls
  have hinitializer := hcls.initializer?
  unfold State.construct
  unfold Class.arity at hlength
  generalize cls.initializer? = i at hinitializer hlength ⊢
  generalize cls'.initializer? = i' at hinitializer ⊢
  cases hinitializer with
  | none => exact .mk H₁ (.value hobject next)
  | some hf =>
    obtain ⟨hbound, H₂⟩ := H₁.bindMethod hf hobject
    exact H₂.enter hbound hargs hlength (.construct hobject next) span

/-- A value is called. -/
theorem call (hv : ValueAlike ω v v') (hargs : List.Forall₂ (ValueAlike ω) args args')
    (next : AfterValueAlike ω J k k') (span : Span) :
    StepAlike ω (State.call ⟨c, J.left, d, m⟩ span v args k)
      (State.call ⟨c', J.right, d, m'⟩ span v' args' k') := by
  unfold State.call
  rw [← hargs.length_eq, hv.accepts_eq]
  cases haccepts : v.accepts args.length with
  | error cause => exact .moved (.now (H.fault span cause))
  | ok _ =>
    cases hv with
    | native n =>
      cases n with
      | clock => exact .waiting fun time ↦ H.give (.number time) next
      | input =>
        refine .waiting fun line ↦ ?_
        cases line with
        | line text => exact H.give (.string text) next
        | closed => exact H.give .nil next
        | invalid => exact H.fault span _
    | function id hf =>
      exact .moved (.now (H.enter hf hargs (Value.length_of_accepts haccepts rfl) next span))
    | cls hcls =>
      exact .moved (.now (H.construct hcls hargs (Value.length_of_accepts haccepts rfl) next span))
    | nil | bool | number | string => exact .moved (.now (H.fault span _))
    | object id hcls =>
      simp only [Value.typeName, hcls.name_eq]
      exact .moved (.now (H.fault span _))

/-- The next argument of a call is evaluated, or the call is made. -/
theorem nextArgument (hv : ValueAlike ω v v') (hargs : List.Forall₂ (ValueAlike ω) args args')
    {es es' : List Expr} (hes : Expr.AllAlike ω J.pairing es es')
    (next : AfterValueAlike ω J k k') (span : Span) :
    StepAlike ω (State.nextArgument ⟨c, J.left, d, m⟩ span v args es k)
      (State.nextArgument ⟨c', J.right, d, m'⟩ span v' args' es' k') := by
  cases hes with
  | nil => exact H.call hv (List.rel_reverse hargs) next span
  | cons he hes => exact .moved (.now (.mk H (.evaluate he (.argument hv hargs hes next))))

/-- The body of a function has ended. -/
theorem leaveCall {J₀ : Joint} {r : Bool} {flow flow' : Flow} (hf : FunctionAlike ω f f')
    (hflow : FlowAlike ω r flow flow') (next : AfterValueAlike ω J₀ k k') :
    StateAlike ω (State.leaveCall ⟨c, J.left, d, m⟩ J₀.left f flow k)
      (State.leaveCall ⟨c', J.right, d, m'⟩ J₀.right f' flow' k') := by
  unfold State.leaveCall
  cases hf with
  | @mk J₁ g g' b hg this =>
    cases b with
    | true =>
      -- an initializer gives its instance, whatever its body has ended with
      have hheld := H.holds c c' (d - 1) (this rfl) J₀.left J₀.right
      simp only [if_true]
      generalize State.holds _ J₁.left "this" = o at hheld ⊢
      generalize State.holds _ J₁.right "this" = o' at hheld ⊢
      cases hheld with
      | none => exact .mk H (.stuck (.refl _))
      | some hv => exact H.give hv next
    | false =>
      cases hflow with
      | normal => exact H.give .nil next
      | returned hv => exact H.give hv next

/-! ### Loops -/

section Loops

variable {loop loop' : Loop} {k k' : AfterStmt}

/-- Both begin a round. -/
theorem round (hloop : LoopAlike ω J.pairing loop loop') (next : AfterStmtAlike ω true J k k') :
    StateAlike ω (State.round ⟨c, J.left, d, m⟩ loop k)
      (State.round ⟨c', J.right, d, m'⟩ loop' k') := by
  obtain ⟨condition, step, body⟩ := loop
  obtain ⟨condition', step', body'⟩ := loop'
  have hcondition := hloop.condition
  cases hcondition with
  | none =>
    refine .mk H (.execute (r := true) hloop.body nofun fun n ↦ ?_)
    rw [Joint.after_eq_self hloop.declares]
    exact .endRound hloop next
  | some hcondition => exact .mk H (.evaluate hcondition (.test hloop next))

/-- Both begin the body of a loop, the second one in a block of its own. -/
theorem writtenBody (places : LoopSpans) (loops : ω.loops) (isLocal : J.isLocal = true)
    (hloop : LoopAlike ω J.pairing loop loop') (next : AfterStmtAlike ω true J k k') :
    Catches ω ⟨.execute loop.body (.endRound loop k), J.left, d, m⟩
      ⟨.execute (places.round loop'.step loop'.body)
        (.endRound (written places loop') (.sequence [] k')), J.right, d, m'⟩ := by
  refine .later loops rfl (.later loops rfl (.now ?_))
  have h : StateAlike ω ⟨.execute loop.body (.endRound loop k), J.left, d, m⟩
      ⟨.execute loop'.body (.sequence (places.steps loop'.step)
        (afterBody places loop' J.right k')), J.right, d, m'⟩ := by
    refine .mk H (.execute (r := true) hloop.body nofun fun n ↦ ?_)
    rw [Joint.after_eq_self hloop.declares]
    exact .writtenEnd places loops isLocal hloop next
  -- the block opens no scope that is not open already
  rw [← Joint.inner_eq_self isLocal] at h ⊢
  exact h

/-- Both begin a round of a loop that is written out. -/
theorem writtenLoop (places : LoopSpans) (loops : ω.loops) (isLocal : J.isLocal = true)
    (hloop : LoopAlike ω J.pairing loop loop') (next : AfterStmtAlike ω true J k k') :
    Catches ω (State.round ⟨c, J.left, d, m⟩ loop k)
      (State.round ⟨c', J.right, d, m'⟩ (written places loop') (.sequence [] k')) := by
  have body := H.writtenBody (d := d) places loops isLocal hloop next
  have hcondition := hloop.condition
  obtain ⟨condition, step, body⟩ := loop
  obtain ⟨condition', step', body'⟩ := loop'
  cases hcondition with
  | none => exact .later loops rfl (.later loops rfl body)
  | some hcondition =>
    exact .now (.mk H (.evaluate hcondition (.writtenTest places loops isLocal hloop next)))

/-- A loop with a scope of its own is entered on both sides. -/
theorem enterLoop {i i' : Option Stmt} (hi : Stmt.Alike? ω J.inner.pairing i i')
    (hloop : LoopAlike ω (J.inner.pairing.after? i i') loop loop')
    (next : AfterStmtAlike ω true J k k') :
    StateAlike ω (State.enterLoop ⟨c, J.left, d, m⟩ i loop k)
      (State.enterLoop ⟨c', J.right, d, m'⟩ i' loop' k') := by
  cases hi with
  | none => exact H.round (J := J.inner) hloop (.leave next)
  | @some _ s s' hs =>
    refine .mk (J := J.inner) H (.execute (r := true) hs nofun fun n ↦ .enterLoop ?_ (.leave next))
    rw [Joint.pairing_after]
    exact hloop

/-- A loop with a scope of its own is entered, where it is written out on the second side. -/
theorem enterWritten (places : LoopSpans) (loops : ω.loops) {i i' : Option Stmt}
    (clause : i.all Stmt.isClause = true) (hi : Stmt.Alike? ω J.inner.pairing i i')
    (hloop : LoopAlike ω (J.inner.pairing.after? i i') loop loop')
    (next : AfterStmtAlike ω true J k k') :
    Catches ω (State.enterLoop ⟨c, J.left, d, m⟩ i loop k)
      (State.execute ⟨c', J.right, d, m'⟩
        (.desugared places i' loop'.condition loop'.step loop'.body) k') := by
  cases hi with
  | none =>
    exact .later loops rfl (.later loops rfl
      (H.writtenLoop (J := J.inner) places loops rfl hloop (.leave next)))
  | @some _ s s' hs =>
    refine .later loops rfl (.now (.mk (J := J.inner) H
      (.execute (r := false) hs (fun _ ↦ clause) fun n ↦
        .writtenEnter places loops (Joint.isLocal_after rfl ..) ?_ (.leave next))))
    rw [Joint.pairing_after]
    exact hloop

end Loops

/-! ### One step -/

/-- Statements that are alike begin with steps that the states catch up on. -/
theorem execute {r : Bool} {s s' : Stmt} {k k' : AfterStmt} (hs : Stmt.Alike ω J.pairing s s')
    (hr : r = false → s.isClause = true) (next : ∀ n, AfterStmtAlike ω r (J.after n s s') k k') :
    Catches ω (State.execute ⟨c, J.left, d, m⟩ s k) (State.execute ⟨c', J.right, d, m'⟩ s' k') := by
  -- only a first clause cannot be left by a `return`
  have marked (h : s.isClause = false) : r = true := by
    cases r with
    | true => rfl
    | false => exact absurd (hr rfl) (by rw [h]; exact Bool.false_ne_true)
  cases hs with
  | expression hv => exact .now (.mk H (.evaluate hv (.discard (next 0))))
  | print hv => exact .now (.mk H (.evaluate hv (.print (next 0))))
  | @varDecl _ span x x' v v' hx hv =>
    cases hv with
    | none => exact .now (H.bindNil hx.paired next)
    | some hv =>
      obtain ⟨m₁, m₁', hs, hs', H₁⟩ := H.declare (J := J) c c' d x x'
      unfold State.execute
      simp only [hs, hs']
      refine .now (.mk H₁ (.evaluate ?_ (.define ?_ (next m.cells.size))))
      · rwa [Joint.pairing_declare]
      · rw [Joint.pairing_declare]
        exact hx.paired
  | funDecl hx hf =>
    exact .now (H.declareFunction hx hf next)
  | classDecl hx hparent hfs => exact .now (H.beginClass hx hparent hfs next)
  | block hbody =>
    exact .now (.mk (J := J.inner) H (.ended (r := true) .normal
      (.sequence hbody fun _ ↦ .leave (marked rfl ▸ next 0))))
  | conditional hc hyes hno declares declares' =>
    exact .now (.mk H (.evaluate hc (.choose hyes hno declares declares' (marked rfl ▸ next 0))))
  | @whileLoop _ span e e' body body' hc hbody declares =>
    have hloop : LoopAlike ω J.pairing ⟨some e, none, body⟩ ⟨some e', none, body'⟩ :=
      ⟨.some hc, .none, hbody, declares⟩
    exact .now (H.round hloop (marked rfl ▸ next 0))
  | @forLoop _ span i i' e e' u u' body body' hi he hu hbody declares =>
    have hloop : LoopAlike ω (J.inner.pairing.after? i i') ⟨e, u, body⟩ ⟨e', u', body'⟩ :=
      ⟨he, hu, hbody, declares⟩
    exact .now (H.enterLoop hi hloop (marked rfl ▸ next 0))
  | @desugared _ span places i i' e e' u u' body body' loops clause hi he hu hbody declares =>
    have hloop : LoopAlike ω (J.inner.pairing.after? i i') ⟨e, u, body⟩ ⟨e', u', body'⟩ :=
      ⟨he, hu, hbody, declares⟩
    exact H.enterWritten places loops clause hi hloop (marked rfl ▸ next 0)
  | returns hv =>
    obtain rfl := marked rfl
    cases hv with
    | none => exact .now (H.finish (.returned .nil) (next 0))
    | some hv => exact .now (.mk H (.evaluate hv (.returns (next 0))))

/-- Expressions that are alike begin with steps to states that are alike. -/
theorem evaluate {e e' : Expr} (he : Expr.Alike ω J.pairing e e')
    (next : AfterValueAlike ω J k k') :
    StateAlike ω (State.evaluate ⟨c, J.left, d, m⟩ e k)
      (State.evaluate ⟨c', J.right, d, m'⟩ e' k') := by
  cases he with
  | literal => exact H.give (.ofLiteral _) next
  | var hx => exact H.read hx _ next
  | assign hx hv => exact .mk H (.evaluate hv (.assign hx next))
  | step hx => exact H.stepVariable hx _ _ _ next
  | group he => exact .mk H (.evaluate he next)
  | unary he => exact .mk H (.evaluate he (.unary next))
  | binary hl hr => exact .mk H (.evaluate hl (.left hr next))
  | call he hes => exact .mk H (.evaluate he (.callee hes next))
  | property he => exact .mk H (.evaluate he (.property next))
  | setProperty he hv => exact .mk H (.evaluate he (.target hv next))
  | this hthis => exact H.read ⟨hthis, ω.refl _⟩ _ next
  | super hthis hsuper => exact H.readSuper hthis hsuper _ _ next
  | lambda hf => exact H.giveFunction (.mk hf nofun) next

/-- What waits for values that are alike goes on with steps that are alike. -/
theorem accept (hv : ValueAlike ω v v') (next : AfterValueAlike ω J k k') :
    StepAlike ω (State.accept ⟨c, J.left, d, m⟩ v k) (State.accept ⟨c', J.right, d, m'⟩ v' k') := by
  cases next with
  | discard next => exact .moved (.now (H.finish .normal next))
  | @print _ _ span _ _ next =>
    have hdisplay := hv.display_eq
    simp only [State.accept]
    generalize v'.display = text at hdisplay ⊢
    subst hdisplay
    refine .waiting fun written ↦ ?_
    cases written with
    | true => exact H.finish .normal next
    | false => exact H.fault span _
  | define hx next => exact .moved (.now (H.defineAndFinish hx hv next))
  | @inherit _ _ span _ _ _ _ _ hx hfs next =>
    cases hv with
    | cls habove => exact .moved (.now (H.declareSubclass hx habove hfs next))
    | object id hcls =>
      simp only [State.accept, Value.typeName, hcls.name_eq]
      exact .moved (.now (H.fault span _))
    | _ => exact .moved (.now (H.fault span _))
  | @choose _ yes yes' no no' _ _ hyes hno declares declares' next =>
    simp only [State.accept, hv.isTruthy_eq]
    split
    · refine .moved (.now (.mk H (.execute (r := true) hyes Bool.noConfusion fun n ↦ ?_)))
      rwa [Joint.after_eq_self declares]
    · cases hno with
      | none => exact .moved (.now (H.finish .normal next))
      | some hno =>
        refine .moved (.now (.mk H (.execute (r := true) hno Bool.noConfusion fun n ↦ ?_)))
        rwa [Joint.after_eq_self declares']
  | @test _ loop loop' _ _ hloop next =>
    simp only [State.accept, hv.isTruthy_eq]
    split
    · refine .moved (.now (.mk H (.execute (r := true) hloop.body Bool.noConfusion fun n ↦ ?_)))
      rw [Joint.after_eq_self hloop.declares]
      exact .endRound hloop next
    · exact .moved (.now (H.finish .normal next))
  | writtenTest places loops isLocal hloop next =>
    simp only [State.accept, hv.isTruthy_eq]
    split
    · exact .moved (H.writtenBody places loops isLocal hloop next)
    · exact .moved (.later loops rfl (.now (H.finish .normal next)))
  | round hloop next => exact .moved (.now (H.round hloop next))
  | writtenRound places loops isLocal hloop next =>
    -- the end of the block that holds the body, and the way out of it
    exact .moved (.later loops rfl (.later loops rfl (.later loops rfl
      (H.writtenLoop places loops isLocal hloop next))))
  | returns next => exact .moved (.now (H.finish (.returned hv) next))
  | assign hx next => exact .moved (.now (H.write hx _ hv hv next))
  | @unary _ span op _ _ next => exact .moved (.now (H.giveOr (hv.unary op) next span))
  | @left _ span op e e' _ _ he next =>
    simp only [State.accept, hv.decides_eq]
    split
    · exact .moved (.now (H.give hv next))
    · exact .moved (.now (.mk H (.evaluate he (.right hv next))))
  | @right _ span op _ _ _ _ hleft next =>
    exact .moved (.now (H.giveOr (hleft.binary hv op) next span))
  | @callee _ span es es' _ _ hes next =>
    simp only [State.accept, hv.callable_eq]
    cases v.callable with
    | error cause => exact .moved (.now (H.fault span cause))
    | ok _ => exact H.nextArgument hv .nil hes next span
  | argument hcallee hvs hes next => exact H.nextArgument hcallee (.cons hv hvs) hes next _
  | property next => exact .moved (.now (H.readProperty _ _ hv next))
  | @target _ span x e e' _ _ he next =>
    have hobject := hv.asObject x
    simp only [State.accept]
    generalize v.asObject x = o at hobject ⊢
    generalize v'.asObject x = o' at hobject ⊢
    cases hobject with
    | error cause => exact .moved (.now (H.fault span cause))
    | @ok a b h =>
      obtain ⟨i, cls⟩ := a
      obtain ⟨i', cls'⟩ := b
      obtain ⟨rfl, -⟩ := h
      exact .moved (.now (.mk H (.evaluate he (.field next))))
  | field next => exact .moved (.now (.mk (H.setField _ _ hv) (.value hv next)))
  | construct hobject next => exact .moved (.now (H.give hobject next))

/-- What waits for statements that end alike goes on with steps that are alike. -/
theorem resume {r : Bool} {flow flow' : Flow} {k k' : AfterStmt} (hflow : FlowAlike ω r flow flow')
    (next : AfterStmtAlike ω r J k k') :
    StepAlike ω (State.resume ⟨c, J.left, d, m⟩ flow k)
      (State.resume ⟨c', J.right, d, m'⟩ flow' k') := by
  cases next with
  | done =>
    cases hflow with
    | normal => exact .stopped .done
    | returned hv => exact .moved (.now (.mk H (.stuck (.refl _))))
  | @sequence _ _ rest rest' k k' hrest next =>
    cases hflow with
    | normal =>
      cases hrest with
      | nil => exact .moved (.now (H.finish .normal (next J)))
      | cons hs hss =>
        refine .moved (.now (.mk H (.execute (r := true) hs nofun fun n ↦ .sequence ?_ next)))
        rwa [Joint.pairing_after]
    | returned hv => cases hrest <;> exact .moved (.now (H.finish (.returned hv) (next J)))
  | leave next =>
    cases hflow with
    | normal => exact .moved (.now (.mk H (.ended .normal next)))
    | returned hv => exact .moved (.now (.mk H (.ended (.returned hv) next)))
  | leaveCall hf next => exact .moved (.now (H.leaveCall hf hflow next))
  | enterLoop hloop next => exact .moved (.now (H.round hloop next))
  | @endRound _ _ loop loop' _ _ hloop next =>
    cases hflow with
    | returned hv => exact .moved (.now (H.finish (.returned hv) next))
    | normal =>
      obtain ⟨condition, step, body⟩ := loop
      obtain ⟨condition', step', body'⟩ := loop'
      have hstep := hloop.step
      cases hstep with
      | none => exact .moved (.now (H.round hloop next))
      | some hu => exact .moved (.now (.mk H (.evaluate hu (.round hloop next))))
  | writtenEnter places loops isLocal hloop next =>
    cases hflow with
    | normal => exact .moved (.later loops rfl (H.writtenLoop places loops isLocal hloop next))
  | @writtenEnd _ _ loop loop' _ _ places loops isLocal hloop next =>
    obtain ⟨condition, step, body⟩ := loop
    obtain ⟨condition', step', body'⟩ := loop'
    have hstep := hloop.step
    cases hflow with
    | returned hv =>
      -- the rest of the block, the block, the loop and the end of a list are all left
      have h : StateAlike ω (State.finish ⟨c, J.left, d, m⟩ _ _)
          (State.finish ⟨c', J.right, d, m'⟩ _ _) := H.finish (.returned hv) next
      cases hstep <;>
        exact .moved (.later loops rfl (.later loops rfl (.later loops rfl (.now h))))
    | normal =>
      cases hstep with
      | none =>
        exact .moved (.later loops rfl (.later loops rfl
          (H.writtenLoop places loops isLocal hloop next)))
      | some hu =>
        exact .moved (.later loops rfl (.now
          (.mk H (.evaluate hu (.writtenRound places loops isLocal hloop next)))))

end MemoryAlike

/-- At corresponding points of their runs, alike programs do the same. -/
theorem StateAlike.step {s s' : State} (h : StateAlike ω s s') : StepAlike ω s.step s'.step := by
  obtain ⟨H, control⟩ := h
  cases control with
  | execute hs hr next => exact .moved (H.execute hs hr next)
  | evaluate he next => exact .moved (.now (H.evaluate he next))
  | value hv next => exact H.accept hv next
  | ended hflow next => exact H.resume hflow next
  | stuck ht => exact .stopped (.stuck ht)

end Lexical

end LoxLang
