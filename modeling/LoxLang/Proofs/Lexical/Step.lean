import LoxLang.Proofs.Lexical.Actions

/-!
# The two machines step by step

Two states at the same point of the same run take the same step (`Related.follows`): both go on to
states that are at the same point again, or both ask the same of the outside, or both stop in the
same way. The only anomaly is the read of a local variable without a value.
-/

namespace LoxLang

variable {K : Reference → Prop} {table : Distances} {P : Plan} {left : List (FrameId × String)}
  {cx : Surroundings} {L : Layers} {s : State} {r : Lexical.State}

namespace Meets

/-- Both machines begin a statement with steps to related states. -/
theorem execute (H : Meets K P left cx L s r) {stmt : Stmt} {k : AfterStmt}
    {k' : Lexical.AfterStmt} (hcontrol : s.control = .execute stmt k) (fits : FitsStmt K cx L stmt)
    (next : AfterStmtRel K P cx (L.after stmt) s.scope.frame k k') :
    Arrives K table P left s (s.execute stmt k) (r.execute stmt k') := by
  have hi : k.initializing s.scope.frame = s.initializing := (State.initializing_eq hcontrol).symm
  cases stmt with
  | expression span e => exact H.goOn (.evaluate fits (.discard next)) hi
  | print span e => exact H.goOn (.evaluate fits (.print next)) hi
  | varDecl span x value =>
    obtain ⟨hfree, hx, fits⟩ := fits
    cases value with
    | none => exact H.bindNil hfree hx next hi
    | some e =>
      obtain ⟨P', hplaces, hgrows, stands, heap⟩ := H.heap.declareIn H.stands hfree hx
      rw [← hi] at heap
      exact .within hplaces
        ⟨⟨stands, (Lexical.State.depth_declare ..).trans H.depth, heap⟩,
          .evaluate fits (.define hx (L.declared_declare x) (next.mono hgrows))⟩
  | funDecl f => exact H.declareFunction fits.1 fits.2.1 fits.2.2 next hi
  | classDecl span x parent methods =>
    obtain ⟨hfree, hx, known, fits⟩ := fits
    exact H.beginClass hfree hx known fits next hi
  | block span body => exact H.enterBlock hcontrol fits next
  | conditional span condition yes no =>
    obtain ⟨hcondition, ⟨hyes, declares⟩, hno, declares'⟩ := fits
    exact H.goOn (.evaluate hcondition (.choose hyes hno declares declares' next)) hi
  | whileLoop span condition body =>
    obtain ⟨hcondition, hbody, declares⟩ := fits
    have fits : FitsLoop K cx L ⟨some condition, none, body⟩ :=
      ⟨hcondition, trivial, hbody, declares⟩
    exact H.round fits next hi
  | forLoop span init condition step body => exact H.enterLoop hcontrol fits next
  | returns span value =>
    obtain ⟨hcx, hvalue, fits⟩ := fits
    cases value with
    | none => exact H.finish (.returned hcx (fun _ ↦ rfl) .nil) next hi
    | some e => exact H.goOn (.evaluate fits (.returns hcx (hvalue rfl) next)) hi

/-- Both machines begin an expression with steps to related states. -/
theorem evaluate (H : Meets K P left cx L s r) (hT : Meant K table) {e : Expr} {k : AfterValue}
    {k' : Lexical.AfterValue} (hcontrol : s.control = .evaluate e k) (fits : FitsExpr K cx L e)
    (next : AfterValueRel K P cx L s.scope.frame k k') :
    Arrives K table P left s (s.evaluate table e k) (r.evaluate e k') := by
  have hi : k.initializing s.scope.frame = s.initializing := (State.initializing_eq hcontrol).symm
  cases e with
  | literal span value => exact H.give (.ofLiteral value) next hi
  | var span x => exact H.read hT fits (fun _ ↦ hcontrol) next hi
  | assign span x e => exact H.goOn (.evaluate fits.1 (.assign fits.2.1 fits.2.2 next)) hi
  | step span side op x => exact H.stepVariable hT fits.2 fits.1 hcontrol next
  | group span e => exact H.goOn (.evaluate fits next) hi
  | unary span op e => exact H.goOn (.evaluate fits (.unary next)) hi
  | binary span op e₁ e₂ => exact H.goOn (.evaluate fits.1 (.left fits.2 next)) hi
  | call span callee arguments => exact H.goOn (.evaluate fits.1 (.callee fits.2 next)) hi
  | property span e name => exact H.goOn (.evaluate fits (.property next)) hi
  | setProperty span e name value => exact H.goOn (.evaluate fits.1 (.target fits.2 next)) hi
  | this span => exact H.read hT fits.2 (fun h ↦ absurd rfl h) next hi
  | super span name => exact H.readSuper hT hcontrol fits.1 fits.2 next
  | lambda f => exact H.giveFunction fits next hi

/-- Both machines go on alike with related values. -/
theorem accept (H : Meets K P left cx L s r) (hT : Meant K table) {v : Value} {v' : Lexical.Value}
    {k : AfterValue} {k' : Lexical.AfterValue} (hcontrol : s.control = .value v k)
    (hv : ValueRel K P v v') (next : AfterValueRel K P cx L s.scope.frame k k') :
    Follows K table P left s (s.accept table v k) (r.accept v' k') := by
  have hi : k.initializing s.scope.frame = s.initializing := (State.initializing_eq hcontrol).symm
  cases next with
  | discard next => exact .moved (H.finish .normal next hi)
  | @print _ _ _ span _ _ next =>
    have hdisplay := hv.display_eq
    simp only [State.accept, Lexical.State.accept]
    generalize v'.display = text at hdisplay ⊢
    subst hdisplay
    refine .waiting fun written ↦ ?_
    cases written with
    | true => exact H.finish .normal next hi
    | false => exact H.fault span _
  | define hx declared next => exact .moved (H.define hcontrol declared hx hv next)
  | @inherit _ _ _ span _ _ _ _ hx declared fits next =>
    cases hv with
    | cls habove => exact .moved (H.declareSubclass declared hx hcontrol habove fits next)
    | object id hcls =>
      simp only [State.accept, Lexical.State.accept, Value.typeName, Lexical.Value.typeName,
        hcls.name_eq]
      exact .moved (H.fault span _)
    | _ => exact .moved (H.fault span _)
  | @choose _ _ _ yes no _ _ hyes hno declares declares' next =>
    simp only [State.accept, Lexical.State.accept, hv.isTruthy_eq]
    -- a branch declares nothing, so what is left stands in the same layers
    split
    · refine .moved (H.goOn (.execute hyes ?_) hi)
      rw [Layers.after, declares]
      exact next
    · cases no with
      | none => exact .moved (H.finish .normal next hi)
      | some no =>
        refine .moved (H.goOn (.execute hno ?_) hi)
        rw [Layers.after, show no.declares = none from declares']
        exact next
  | test fits next =>
    simp only [State.accept, Lexical.State.accept, hv.isTruthy_eq]
    split
    · refine .moved (H.goOn (.execute fits.body ?_) hi)
      rw [Layers.after, fits.declares]
      exact .endRound fits next
    · exact .moved (H.finish .normal next hi)
  | round fits next => exact .moved (H.round fits next hi)
  | returns hcx hvalue next =>
    exact .moved (H.finish (.returned hcx (fun h ↦ absurd h hvalue) hv) next hi)
  | assign hx known next => exact .moved (H.write hT known hx hv hv next hi)
  | @unary _ _ _ span op _ _ next => exact .moved (H.giveOr (hv.unary op) next hi span)
  | @left _ _ _ span op e _ _ fits next =>
    simp only [State.accept, Lexical.State.accept, hv.decides_eq]
    split
    · exact .moved (H.give hv next hi)
    · exact .moved (H.goOn (.evaluate fits (.right hv next)) hi)
  | @right _ _ _ span op _ _ _ _ hleft next =>
    exact .moved (H.giveOr (hleft.binary hv op) next hi span)
  | @callee _ _ _ span es _ _ fits next =>
    simp only [State.accept, Lexical.State.accept, hv.callable_eq]
    cases v.callable with
    | error cause => exact .moved (H.fault span cause)
    | ok _ =>
      refine H.nextArgument hv .nil fits (fun hes s' ↦ ?_) next hi span
      unfold State.opens
      rw [hcontrol, hes]
  | @argument _ _ _ span _ _ _ _ es _ _ hcallee hvs fits next =>
    refine H.nextArgument hcallee (.cons hv hvs) fits (fun hes s' ↦ ?_) next hi span
    unfold State.opens
    rw [hcontrol, hes]
  | property next => exact .moved (H.readProperty hcontrol hv next)
  | @target _ _ _ span name e _ _ fits next =>
    have hobject := hv.asObject name
    simp only [State.accept, Lexical.State.accept]
    generalize v.asObject name = o at hobject ⊢
    generalize v'.asObject name = o' at hobject ⊢
    cases hobject with
    | error cause => exact .moved (H.fault span cause)
    | @ok a b h =>
      obtain ⟨i, cls⟩ := a
      obtain ⟨i', cls'⟩ := b
      obtain ⟨rfl, hcls⟩ := h
      exact .moved (H.goOn (.evaluate fits (.field next)) hi)
  | field next => exact .moved (H.arrive (H.heap.setField _ _ hv) (.value hv next) hi)
  | construct hobject next => exact .moved (H.give hobject next hi)

/-- Both machines go on alike after a statement. -/
theorem resume (H : Meets K P left cx L s r) {flow : Flow} {flow' : Lexical.Flow} {k : AfterStmt}
    {k' : Lexical.AfterStmt} (hcontrol : s.control = .ended flow k)
    (hflow : FlowRel K P cx flow flow') (next : AfterStmtRel K P cx L s.scope.frame k k') :
    Follows K table P left s (s.resume flow k) (r.resume flow' k') := by
  have hi : k.initializing s.scope.frame = s.initializing := (State.initializing_eq hcontrol).symm
  generalize hf : s.scope.frame = f at next
  cases next with
  | done hcx =>
    -- outside of functions nothing is returned
    cases hflow with
    | normal => exact .done hcontrol (H.stands.of_frame_eq_zero hf).2 H.heap
    | returned hcx' _ _ =>
      rw [hcx] at hcx'
      cases hcx'
  | @sequence _ _ _ rest k k' fits next =>
    subst hf
    cases hflow with
    | normal =>
      cases rest with
      | nil => exact .moved (H.finish .normal (next L) hi)
      | cons stmt rest => exact .moved (H.goOn (.execute fits.1 (.sequence fits.2 next)) hi)
    | returned hcx hnil hv =>
      cases rest <;> exact .moved (H.finish (.returned hcx hnil hv) (next L) hi)
  | leave stands hlt next =>
    refine .moved (.within rfl ⟨⟨stands, H.depth, ?_⟩, .ended hflow next⟩)
    have heap := H.heap
    rw [← hi] at heap
    exact heap
  | leaveCall stands hlt hc _ next =>
    exact .moved (H.leaveCall hcontrol stands hc hflow next)
  | enterLoop fits next =>
    subst hf
    exact .moved (H.round fits next hi)
  | @endRound _ _ _ loop _ _ fits next =>
    subst hf
    cases hflow with
    | returned hcx hnil hv => exact .moved (H.finish (.returned hcx hnil hv) next hi)
    | normal =>
      obtain ⟨condition, step, body⟩ := loop
      cases step with
      | none => exact .moved (H.round fits next hi)
      | some step => exact .moved (H.goOn (.evaluate fits.step (.round fits next)) hi)

end Meets

/-- Two states at the same point of the same run take the same step. -/
theorem Related.follows (h : Related K P left s r) (hT : Meant K table) :
    Follows K table P left s (s.step table) r.step := by
  obtain ⟨H, control⟩ := h
  generalize hs : s.control = c at control
  generalize hr : r.control = c' at control
  unfold State.step Lexical.State.step
  rw [hs, hr]
  cases control with
  | execute fits next => exact .moved (H.execute hs fits next)
  | evaluate fits next => exact .moved (H.evaluate hT hs fits next)
  | value hv next => exact H.accept hT hs hv next
  | ended hflow next => exact H.resume hs hflow next

end LoxLang
