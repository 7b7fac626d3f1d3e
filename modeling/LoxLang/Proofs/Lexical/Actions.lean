import LoxLang.Proofs.Lexical.Scopes
import Mathlib.Data.List.Nodup

/-!
# What the two machines do

Two states at the same point of the same run do the same (`Arrives`): both go on to states that are
at the same point again, or both get stuck, for the same reason. There is one lemma for everything
that a machine can do; which of it comes next is another matter.
-/

namespace LoxLang

/-- The table gives these references the distances that their layers give them. -/
def Meant (K : Reference → Prop) (table : Distances) : Prop :=
  ∀ r, K r → table.lookup r.span = r.layers.hops? r.name

section Arrives

variable (K : Reference → Prop) (table : Distances) (P : Plan) (left : List (FrameId × String))
  (s : State)

/-- Where the step from `s` leads: to two states that are at the same point, or to two that are
stuck for the same reason. The plan grows by the scopes that the step opens. -/
inductive Arrives (s' : State) (r' : Lexical.State) : Prop
  | on {P' : Plan} {new : List Place} (places : P'.places = P.places ++ new)
      (opened : new <+: s.opens s') (related : Related K P' left s' r')
  | stuck {P' : Plan} {new : List Place} {t : Trouble} (places : P'.places = P.places ++ new)
      (opened : new <+: s.opens s')
      (heap : HeapRel K P' (s.initializing ++ left) s'.heap r'.memory)
      (hs : s'.control = .stuck t) (hr : r'.control = .stuck t)
      (excused : ∀ a, t = .anomaly a → ∃ f x, a = .missingLocal x ∧ s.ReadsEmpty table f x ∧
        (f, x) ∈ s.initializing ++ left)

/-- The two machines do the same. -/
inductive Follows : Progress → Lexical.Progress → Prop
  | moved {s' : State} {r' : Lexical.State} (h : Arrives K table P left s s' r') :
      Follows (.moved s') (.moved r')
  | waiting {request : Request} {resume : request.Reply → State}
      {resume' : request.Reply → Lexical.State}
      (h : ∀ reply, Arrives K table P left s (resume reply) (resume' reply)) :
      Follows (.waiting request resume) (.waiting request resume')
  | done {m : Lexical.Memory} (hcontrol : s.control = .ended .normal .done)
      (globals : s.scope = Heap.globals) (heap : HeapRel K P (s.initializing ++ left) s.heap m) :
      Follows (.stopped .done s.heap) (.stopped .done m)

end Arrives

variable {K : Reference → Prop} {table : Distances} {P : Plan} {left : List (FrameId × String)}
  {cx : Surroundings} {L : Layers} {s : State} {r : Lexical.State}

/-- The step makes no frame. -/
theorem Arrives.within {P' : Plan} {s' : State} {r' : Lexical.State}
    (places : P'.places = P.places) (related : Related K P' left s' r') :
    Arrives K table P left s s' r' :=
  .on (by rw [places, List.append_nil]) List.nil_prefix related

/-- A round of a loop begins alike in any two states. -/
theorem FitsLoop.round {f : FrameId} {loop : Loop} (fits : FitsLoop K cx L loop) {k : AfterStmt}
    {k' : Lexical.AfterStmt} (next : AfterStmtRel K P cx L f k k') :
    ∃ c c', (∀ s : State, s.round loop k = { s with control := c }) ∧
      (∀ r : Lexical.State, r.round loop k' = { r with control := c' }) ∧
      ControlRel K P cx L f c c' ∧ c.initializing f = k.initializing f := by
  obtain ⟨condition, step, body⟩ := loop
  cases condition with
  | none =>
    refine ⟨_, _, fun _ ↦ rfl, fun _ ↦ rfl, .execute fits.body ?_, rfl⟩
    rw [Layers.after, fits.declares]
    exact .endRound fits next
  | some condition =>
    exact ⟨_, _, fun _ ↦ rfl, fun _ ↦ rfl, .evaluate fits.condition (.test fits next), rfl⟩

namespace Meets

/-! ### Going on in the same place -/

/-- The two go on in the same scope. -/
theorem arrive (H : Meets K P left cx L s r) {h : Heap} {m : Lexical.Memory}
    (heap : HeapRel K P (s.initializing ++ left) h m) {c : Control} {c' : Lexical.Control}
    (hc : ControlRel K P cx L s.scope.frame c c')
    (hi : c.initializing s.scope.frame = s.initializing) :
    Arrives K table P left s ⟨c, s.scope, s.depth, h⟩ ⟨c', r.env, r.depth, m⟩ :=
  .within rfl ⟨⟨H.stands, H.depth, by rw [State.initializing, hi]; exact heap⟩, hc⟩

/-- The two go on in the same scope, and nothing has changed. -/
theorem goOn (H : Meets K P left cx L s r) {c : Control} {c' : Lexical.Control}
    (hc : ControlRel K P cx L s.scope.frame c c')
    (hi : c.initializing s.scope.frame = s.initializing) :
    Arrives K table P left s { s with control := c } { r with control := c' } :=
  H.arrive H.heap hc hi

/-- Both machines stop with the same fault. -/
theorem fault (H : Meets K P left cx L s r) (span : Span) (cause : Cause) :
    Arrives K table P left s (s.fault span cause) (r.fault span cause) :=
  .stuck (List.append_nil _).symm List.nil_prefix H.heap rfl rfl nofun

variable {k : AfterValue} {k' : Lexical.AfterValue} {v w : Value} {v' w' : Lexical.Value}

/-- Both machines give related values to related pending work. -/
theorem give (H : Meets K P left cx L s r) (hv : ValueRel K P v v')
    (next : AfterValueRel K P cx L s.scope.frame k k')
    (hi : k.initializing s.scope.frame = s.initializing) :
    Arrives K table P left s (s.give v k) (r.give v' k') :=
  H.goOn (.value hv next) hi

/-- Both machines go back to related pending work after a statement. -/
theorem finish (H : Meets K P left cx L s r) {k : AfterStmt} {k' : Lexical.AfterStmt}
    {flow : Flow} {flow' : Lexical.Flow} (hflow : FlowRel K P cx flow flow')
    (next : AfterStmtRel K P cx L s.scope.frame k k')
    (hi : k.initializing s.scope.frame = s.initializing) :
    Arrives K table P left s (s.finish flow k) (r.finish flow' k') :=
  H.goOn (.ended hflow next) hi

/-- Both machines give related results to related pending work, or stop with the same fault. -/
theorem giveOr (H : Meets K P left cx L s r) {result : Except Cause Value}
    {result' : Except Cause Lexical.Value} (hresult : ResultRel (ValueRel K P) result result')
    (next : AfterValueRel K P cx L s.scope.frame k k')
    (hi : k.initializing s.scope.frame = s.initializing) (span : Span) :
    Arrives K table P left s (s.giveOr span result k) (r.giveOr span result' k') := by
  cases hresult with
  | ok hv => exact H.give hv next hi
  | error cause => exact H.fault span cause

/-- A round of a loop. -/
theorem round (H : Meets K P left cx L s r) {k : AfterStmt} {k' : Lexical.AfterStmt}
    {loop : Loop} (fits : FitsLoop K cx L loop)
    (next : AfterStmtRel K P cx L s.scope.frame k k')
    (hi : k.initializing s.scope.frame = s.initializing) :
    Arrives K table P left s (s.round loop k) (r.round loop k') := by
  obtain ⟨c, c', hs, hr, hc, hinit⟩ := fits.round next
  rw [hs, hr]
  exact H.goOn hc (hinit.trans hi)

/-! ### Variables -/

/-- A local variable is found by its distance where the environment has its cell. A name without a
distance is global for both. -/
theorem frameOf (H : Meets K P left cx L s r) (hT : Meant K table) {span : Span} {x : String}
    (hK : K ⟨span, x, L⟩) :
    (∃ d f c, table.lookup span = some d ∧ s.scope.ancestor? d = some f ∧
      s.frameOf table span x = .ok f ∧ r.env.find? x = some c ∧ P.cell? f x = some c) ∨
    (r.env.find? x = none ∧ s.frameOf table span x =
      if ((s.heap.frame 0).get? x).isSome then .ok 0
      else .error (.fault ⟨.notDefined x, span⟩)) := by
  have htable : table.lookup span = L.hops? x := hT _ hK
  cases hhops : L.hops? x with
  | some d =>
    obtain ⟨f, c, l, hf, hc, hcell, -⟩ := H.stands.sees.of_hops? hhops
    replace hf : s.scope.ancestor? d = some f := hf
    refine .inl ⟨d, f, c, htable.trans hhops, hf, ?_, hc, hcell⟩
    unfold State.frameOf Heap.ancestor
    rw [htable, hhops]
    simp only [hf]
    rfl
  | none =>
    refine .inr ⟨H.stands.sees.of_hops?_eq_none hhops, ?_⟩
    unfold State.frameOf
    rw [htable, hhops]
    cases hx : ((s.heap.frame 0).get? x).isSome <;>
      simp [Heap.binder?, Chain.frames, Heap.globals, hx]

/-- Both find the same value, or neither finds one and the reason is the same. -/
theorem lookup (H : Meets K P left cx L s r) (hT : Meant K table) {span : Span} {x : String}
    (hK : K ⟨span, x, L⟩) :
    (∃ v v', s.lookup table span x = .ok v ∧ r.lookup span x = .ok v' ∧ ValueRel K P v v') ∨
    ∃ t, s.lookup table span x = .error t ∧ r.lookup span x = .error t ∧
      ∀ a, t = .anomaly a → a = .missingLocal x ∧ ∃ d f, table.lookup span = some d ∧
        s.scope.ancestor? d = some f ∧ (P.cell? f x).isSome ∧ (s.heap.frame f).get? x = none ∧
        (f, x) ∈ s.initializing ++ left := by
  unfold State.lookup Lexical.State.lookup
  rcases H.frameOf hT hK with ⟨d, f, c, hd, hf, hframe, hc, hcell⟩ | ⟨hc, hframe⟩
  · rw [hframe, hc]
    simp only
    have hrel := H.heap.locals hcell
    cases hx : (s.heap.frame f).get? x with
    | some v =>
      rw [hx] at hrel
      generalize r.memory.cell c = w at hrel ⊢
      cases hrel with
      | some hv => exact .inl ⟨_, _, rfl, rfl, hv⟩
    | none =>
      rw [hx] at hrel
      generalize r.memory.cell c = w at hrel ⊢
      cases hrel with
      | none =>
        refine .inr ⟨_, rfl, rfl, fun a ha ↦ ?_⟩
        obtain rfl := Trouble.anomaly.inj ha
        exact ⟨rfl, d, f, hd, hf, by rw [hcell]; rfl, hx, H.heap.ready hcell hx⟩
  · rw [hframe, hc]
    have hrel := H.heap.globals x
    cases hx : (s.heap.frame 0).get? x with
    | some v =>
      rw [hx] at hrel
      generalize r.memory.globals x = w at hrel ⊢
      cases hrel with
      | some hv =>
        refine .inl ⟨v, _, ?_, rfl, hv⟩
        simp only [Option.isSome_some, if_true, hx]
    | none =>
      rw [hx] at hrel
      generalize r.memory.globals x = w at hrel ⊢
      cases hrel with
      | none => exact .inr ⟨_, rfl, rfl, nofun⟩

/-- A variable is read. It can only be missing if reading it may be an anomaly. -/
theorem read (H : Meets K P left cx L s r) (hT : Meant K table) {span : Span} {x : String}
    (hK : K ⟨span, x, L⟩) (hreads : x ≠ "this" → s.control = .evaluate (.var span x) k)
    (next : AfterValueRel K P cx L s.scope.frame k k')
    (hi : k.initializing s.scope.frame = s.initializing) :
    Arrives K table P left s (s.read table span x k) (r.read span x k') := by
  unfold State.read Lexical.State.read
  rcases H.lookup hT hK with ⟨v, v', hs, hr, hv⟩ | ⟨t, hs, hr, ht⟩
  · rw [hs, hr]
    exact H.give hv next hi
  · rw [hs, hr]
    refine .stuck (List.append_nil _).symm List.nil_prefix H.heap rfl rfl fun a ha ↦ ?_
    obtain ⟨rfl, d, f, hd, hf, hcell, hx, hmem⟩ := ht a ha
    -- a frame that has a cell for `this` binds it, so only other names can be missing
    by_cases hthis : x = "this"
    · subst hthis
      obtain ⟨c, hc⟩ := Option.isSome_iff_exists.1 hcell
      obtain ⟨i, cls, hsome⟩ := H.heap.this hc
      rw [hx] at hsome
      cases hsome
    · exact ⟨f, x, rfl, ⟨span, k, d, .inl (hreads hthis), hd, hf, hx⟩, hmem⟩

/-- A variable is written. -/
theorem write (H : Meets K P left cx L s r) (hT : Meant K table) {span : Span} {x : String}
    (hK : K ⟨span, x, L⟩) (hx : IsName x) (hv : ValueRel K P v v') (hw : ValueRel K P w w')
    (next : AfterValueRel K P cx L s.scope.frame k k')
    (hi : k.initializing s.scope.frame = s.initializing) :
    Arrives K table P left s (s.write table span x v w k) (r.write span x v' w' k') := by
  unfold State.write Lexical.State.write
  rcases H.frameOf hT hK with ⟨d, f, c, hd, hf, hframe, hc, hcell⟩ | ⟨hc, hframe⟩
  · rw [hframe, hc]
    -- the variable may have had no value until now
    have heap := (H.heap.mono (fun _ ↦ id) fun _ ↦ List.mem_cons_of_mem _).fill hcell hx hv
    exact H.arrive heap (.value hw next) hi
  · rw [hframe, hc]
    have hrel := H.heap.globals x
    cases hx : (s.heap.frame 0).get? x with
    | some u =>
      rw [hx] at hrel
      have hsome : (r.memory.globals x).isSome = true := by
        generalize r.memory.globals x = u' at hrel ⊢
        cases hrel
        rfl
      simp only [hsome, Option.isSome_some, if_true]
      exact H.arrive (H.heap.setGlobal hv) (.value hw next) hi
    | none =>
      rw [hx] at hrel
      have hnone : (r.memory.globals x).isSome = false := by
        generalize r.memory.globals x = u' at hrel ⊢
        cases hrel
        rfl
      simp only [hnone, Option.isSome_none, Bool.false_eq_true, if_false]
      exact H.fault span _

/-- A variable is stepped up or down. -/
theorem stepVariable (H : Meets K P left cx L s r) (hT : Meant K table) {span : Span} {x : String}
    (hK : K ⟨span, x, L⟩) (hx : IsName x) {side : Side} {op : StepOp}
    (hcontrol : s.control = .evaluate (.step span side op x) k)
    (next : AfterValueRel K P cx L s.scope.frame k k') :
    Arrives K table P left s (s.stepVariable table span side op x k)
      (r.stepVariable span side op x k') := by
  have hi : k.initializing s.scope.frame = s.initializing := (State.initializing_eq hcontrol).symm
  unfold State.stepVariable Lexical.State.stepVariable
  rcases H.lookup hT hK with ⟨v, v', hs, hr, hv⟩ | ⟨t, hs, hr, ht⟩
  · rw [hs, hr]
    have hresult := hv.stepped op
    simp only
    generalize v.stepped op = result at hresult ⊢
    generalize v'.stepped op = result' at hresult ⊢
    cases hresult with
    | ok hw =>
      cases side with
      | before => exact H.write hT hK hx hw hw next hi
      | after => exact H.write hT hK hx hw hv next hi
    | error cause => exact H.fault span cause
  · rw [hs, hr]
    refine .stuck (List.append_nil _).symm List.nil_prefix H.heap rfl rfl fun a ha ↦ ?_
    obtain ⟨rfl, d, f, hd, hf, -, hnone, hmem⟩ := ht a ha
    exact ⟨f, x, rfl, ⟨span, k, d, .inr ⟨side, op, hcontrol⟩, hd, hf, hnone⟩, hmem⟩

/-! ### Declarations -/

section Declarations

variable {x : String} {k : AfterStmt} {k' : Lexical.AfterStmt}

/-- A variable is declared, and its first value is `nil`. -/
theorem bindNil (H : Meets K P left cx L s r) (hfree : L.Free x) (hx : IsName x)
    (next : AfterStmtRel K P cx (L.declare x) s.scope.frame k k')
    (hi : k.initializing s.scope.frame = s.initializing) :
    Arrives K table P left s (s.bindName x .nil k)
      (((r.declare x).define x .nil).finish .normal k') := by
  obtain ⟨P', hplaces, hgrows, stands, heap⟩ := H.heap.declareIn H.stands hfree hx
  rw [← hi] at heap
  refine .within hplaces ⟨⟨?_, ?_, ?_⟩, .ended .normal (next.mono hgrows)⟩
  · exact (Lexical.State.env_define ..).symm ▸ stands
  · exact (Lexical.State.depth_define ..).trans ((Lexical.State.depth_declare ..).trans H.depth)
  · exact heap.define stands (L.declared_declare x) hx .nil

/-- A declared variable gets its first value. -/
theorem define (H : Meets K P left cx L s r) {v : Value} {v' : Lexical.Value}
    (hcontrol : s.control = .value v (.define x k)) (declared : L.Declared x) (hx : IsName x)
    (hv : ValueRel K P v v') (next : AfterStmtRel K P cx L s.scope.frame k k') :
    Arrives K table P left s (s.bindName x v k) ((r.define x v').finish .normal k') := by
  have heap := H.heap
  have hi : s.initializing = (s.scope.frame, x) :: k.initializing s.scope.frame :=
    State.initializing_eq hcontrol
  rw [hi, List.cons_append] at heap
  refine .within rfl ⟨⟨?_, ?_, ?_⟩, .ended .normal next⟩
  · exact (Lexical.State.env_define ..).symm ▸ H.stands
  · exact (Lexical.State.depth_define ..).trans H.depth
  · exact heap.define H.stands declared hx hv

/-- A function is declared. -/
theorem declareFunction (H : Meets K P left cx L s r) {f : FunDecl} (hfree : L.Free f.name)
    (hx : IsName f.name) (fits : FitsFunction K cx (L.declare f.name) .plain f)
    (next : AfterStmtRel K P cx (L.declare f.name) s.scope.frame k k')
    (hi : k.initializing s.scope.frame = s.initializing) :
    Arrives K table P left s (s.declareFunction f k) (r.declareFunction f k') := by
  obtain ⟨P', hplaces, hgrows, stands, heap⟩ := H.heap.declareIn H.stands hfree hx
  rw [← hi] at heap
  have hv : ValueRel K P' (.function s.heap.nextFunction ⟨f, s.scope, false⟩)
      (.function (r.declare f.name).memory.nextFunction ⟨f, (r.declare f.name).env, false⟩) := by
    rw [heap.nextFunction]
    exact .function _ (.mk stands.sees stands.surrounds fits nofun nofun)
  refine .within hplaces ⟨⟨?_, ?_, ?_⟩, .ended .normal (next.mono hgrows)⟩
  · exact (Lexical.State.env_define ..).symm ▸ stands
  · exact (Lexical.State.depth_define ..).trans ((Lexical.State.depth_declare ..).trans H.depth)
  · exact heap.countFunction.define (r := { r.declare f.name with memory := _ }) stands
      (L.declared_declare _) hx hv

/-- A class without a superclass is made, under a name that is declared already. -/
theorem declareClass (H : Meets K P left cx L s r) (declared : L.Declared x) (hx : IsName x)
    {methods : List FunDecl} (fits : FitsMethods K { cx with cls := some ⟨x, false⟩ } L methods)
    (next : AfterStmtRel K P cx L s.scope.frame k k')
    (hi : k.initializing s.scope.frame = s.initializing) :
    Related K P left (s.declareClass x none methods k) (r.declareClass x none methods k') := by
  have heap := H.heap
  rw [← hi] at heap
  obtain ⟨hv, heap⟩ := heap.newClass H.stands.sees fits
  refine ⟨⟨?_, ?_, ?_⟩, .ended .normal next⟩
  · exact (Lexical.State.env_define ..).symm ▸ H.stands
  · exact (Lexical.State.depth_define ..).trans H.depth
  · refine HeapRel.define (r := { r with memory := _ }) ?_ H.stands declared hx hv
    exact heap.mono (fun _ ↦ id) fun _ ↦ List.mem_cons_of_mem _

/-- A class with a superclass is made, under a name that is declared already. -/
theorem declareSubclass (H : Meets K P left cx L s r) (declared : L.Declared x) (hx : IsName x)
    {methods : List FunDecl} {span : Span} {v : Value} {above : Class} {above' : Lexical.Class}
    (hcontrol : s.control = .value v (.inherit span x methods k))
    (habove : ClassRel K P above above')
    (fits : FitsMethods K { cx with cls := some ⟨x, true⟩ }
      (⟨.superclass span, ["super"]⟩ :: L) methods)
    (next : AfterStmtRel K P cx L s.scope.frame k k') :
    Arrives K table P left s (s.declareClass x (some above) methods k)
      (r.declareClass x (some above') methods k') := by
  have heap := H.heap
  have hi : s.initializing = k.initializing s.scope.frame :=
    State.initializing_eq hcontrol
  rw [hi] at heap
  obtain ⟨P', hplaces, hgrows, hv, heap⟩ := heap.newSubclass H.stands.sees habove fits
  have hlt := H.stands.frame_lt
  have stands := H.stands.mono hgrows hlt
  refine .on hplaces (by simp [State.opens, hcontrol]) ⟨⟨?_, ?_, ?_⟩,
    .ended .normal (next.mono (hgrows.mono (Nat.le_of_lt hlt)))⟩
  · exact (Lexical.State.env_define ..).symm ▸ stands
  · exact (Lexical.State.depth_define ..).trans H.depth
  · refine HeapRel.define (r := { r with memory := _ }) ?_ stands declared hx hv
    exact heap.mono (fun _ ↦ id) fun _ ↦ List.mem_cons_of_mem _

/-- A class is declared. -/
theorem beginClass (H : Meets K P left cx L s r) (hfree : L.Free x) (hx : IsName x)
    {parent : Option Name} {methods : List FunDecl}
    (known : ∀ p ∈ parent, K ⟨p.span, p.text, L.declare x⟩)
    (fits : FitsMethods K { cx with cls := some ⟨x, parent.isSome⟩ }
      ((L.declare x).ofClass parent) methods)
    (next : AfterStmtRel K P cx (L.declare x) s.scope.frame k k')
    (hi : k.initializing s.scope.frame = s.initializing) :
    Arrives K table P left s (s.beginClass x parent methods k)
      (r.beginClass x parent methods k') := by
  obtain ⟨P', hplaces, hgrows, stands, heap⟩ := H.heap.declareIn H.stands hfree hx
  rw [← hi] at heap
  have declared := L.declared_declare x
  -- the name of the class is bound to `nil` before its superclass is evaluated
  have meets : Meets K P' left cx (L.declare x) (s.bindName x .nil k)
      ((r.declare x).define x .nil) := by
    refine ⟨?_, ?_, heap.define stands declared hx .nil⟩
    · exact (Lexical.State.env_define ..).symm ▸ stands
    · exact (Lexical.State.depth_define ..).trans ((Lexical.State.depth_declare ..).trans H.depth)
  replace next := next.mono hgrows
  cases parent with
  | none => exact .within hplaces (meets.declareClass declared hx fits next rfl)
  | some p =>
    refine .within hplaces ⟨⟨meets.stands, meets.depth, meets.heap⟩, .evaluate ?_ ?_⟩
    · exact known p rfl
    · exact .inherit hx declared fits next

end Declarations

/-! ### Scopes -/

/-- A scope is entered. -/
theorem enterScope (H : Meets K P left cx L s r) {place : Place}
    (hopens : ∀ s', s.opens s' = [place]) {c : Control} {c' : Lexical.Control}
    (hc : ControlRel K (P.enter place) cx (⟨place, []⟩ :: L) (P.length + 1) c c')
    (hi : c.initializing (P.length + 1) = s.initializing) :
    Arrives K table P left s { s.enterScope with control := c }
      { r with control := c', env := r.env.inner } := by
  have stands := Stands.enter H.stands.sees H.stands.surrounds place
  have heap := H.heap.enter s.scope place
  rw [← hi] at heap
  rw [← H.heap.size] at stands heap hc
  exact .on Plan.places_enter ⟨[], by rw [List.append_nil, hopens]⟩
    ⟨⟨stands, H.depth, heap⟩, hc⟩

/-- A block is entered. -/
theorem enterBlock (H : Meets K P left cx L s r) {span : Span} {body : List Stmt} {k : AfterStmt}
    {k' : Lexical.AfterStmt} (hcontrol : s.control = .execute (.block span body) k)
    (fits : FitsStmts K cx (⟨.block span, []⟩ :: L) body)
    (next : AfterStmtRel K P cx L s.scope.frame k k') :
    Arrives K table P left s (s.execute (.block span body) k)
      (r.execute (.block span body) k') := by
  have hlt := H.stands.frame_lt
  have hgrows := Plan.grows_enter (Nat.le_refl (P.length + 1)) (.block span)
  have next' := fun L' ↦ AfterStmtRel.leave (K := K) (L := L') (H.stands.mono hgrows hlt) hlt
    (next.mono (hgrows.mono (Nat.le_of_lt hlt)))
  refine H.enterScope (fun _ ↦ by simp [State.opens, hcontrol])
    (.ended .normal (.sequence fits next')) (State.initializing_eq hcontrol).symm

/-- A loop with a scope of its own is entered. -/
theorem enterLoop (H : Meets K P left cx L s r) {span : Span} {init : Option Stmt}
    {condition step : Option Expr} {body : Stmt} {k : AfterStmt} {k' : Lexical.AfterStmt}
    (hcontrol : s.control = .execute (.forLoop span init condition step body) k)
    (fits : FitsStmt K cx L (.forLoop span init condition step body))
    (next : AfterStmtRel K P cx L s.scope.frame k k') :
    Arrives K table P left s (s.enterLoop init ⟨condition, step, body⟩ k)
      (r.enterLoop init ⟨condition, step, body⟩ k') := by
  obtain ⟨hinit, hcondition, hstep, hbody, hdeclares⟩ := fits
  have fits : FitsLoop K cx (Layers.after? (⟨.loop span, []⟩ :: L) init) ⟨condition, step, body⟩ :=
    ⟨hcondition, hstep, hbody, hdeclares⟩
  have hlt := H.stands.frame_lt
  have hgrows := Plan.grows_enter (Nat.le_refl (P.length + 1)) (.loop span)
  have hopens (s' : State) : s.opens s' = [.loop span] := by simp [State.opens, hcontrol]
  have hi : k.initializing s.scope.frame = s.initializing := (State.initializing_eq hcontrol).symm
  have next' (L' : Layers) : AfterStmtRel K (P.enter (.loop span)) cx L' (P.length + 1)
      (.leave s.scope k) (.leave r.env k') :=
    .leave (H.stands.mono hgrows hlt) hlt (next.mono (hgrows.mono (Nat.le_of_lt hlt)))
  cases init with
  | none =>
    obtain ⟨c, c', hs, hr, hc, hinit⟩ := fits.round (next' _)
    unfold State.enterLoop Lexical.State.enterLoop
    simp only [hs, hr]
    exact H.enterScope hopens hc (hinit.trans hi)
  | some init =>
    exact H.enterScope hopens (.execute hinit (.enterLoop fits (next' _))) hi

/-! ### Functions and methods -/

section Functions

variable {k : AfterValue} {k' : Lexical.AfterValue}

/-- A function is evaluated. -/
theorem giveFunction (H : Meets K P left cx L s r) {f : FunDecl}
    (fits : FitsFunction K cx L .plain f) (next : AfterValueRel K P cx L s.scope.frame k k')
    (hi : k.initializing s.scope.frame = s.initializing) :
    Arrives K table P left s (s.giveFunction ⟨f, s.scope, false⟩ k)
      (r.giveFunction ⟨f, r.env, false⟩ k') := by
  have hv : ValueRel K P (.function s.heap.nextFunction ⟨f, s.scope, false⟩)
      (.function r.memory.nextFunction ⟨f, r.env, false⟩) := by
    rw [H.heap.nextFunction]
    exact .function _ (.mk H.stands.sees H.stands.surrounds fits nofun nofun)
  exact H.arrive H.heap.countFunction (.value hv next) hi

/-- A method of an instance is evaluated. -/
theorem giveMethod (H : Meets K P left cx L s r) {c : Closure} {c' : Lexical.Closure}
    (hc : MethodRel K P c c') {i : Nat} {cls : Class} {v' : Lexical.Value}
    (hv : ValueRel K P (.object i cls) v')
    (hopens : ∀ s' j b next, s'.control = .value (.function j b) next →
      s.opens s' = [.receiver b.function.span])
    (next : AfterValueRel K P cx L s.scope.frame k k')
    (hi : k.initializing s.scope.frame = s.initializing) :
    Arrives K table P left s (s.giveMethod c (.object i cls) k) (r.giveMethod c' v' k') := by
  obtain ⟨P', hplaces, hgrows, hbound, heap⟩ := H.heap.bindMethod hc hv ⟨i, cls, rfl⟩
  have hlt := H.stands.frame_lt
  rw [← hi] at heap
  have hvalue : ValueRel K P'
      (.function (s.heap.bindMethod c (.object i cls)).2.nextFunction
        (s.heap.bindMethod c (.object i cls)).1)
      (.function (r.memory.bindMethod c' v').2.nextFunction (r.memory.bindMethod c' v').1) := by
    rw [heap.nextFunction]
    exact .function _ hbound
  refine .on hplaces ?_ ⟨⟨H.stands.mono hgrows hlt, H.depth, heap.countFunction⟩,
    .value hvalue (next.mono (hgrows.mono (Nat.le_of_lt hlt)))⟩
  exact ⟨[], by rw [List.append_nil, hopens _ _ _ _ rfl]⟩

/-- A method of the superclass is evaluated. -/
theorem readSuper (H : Meets K P left cx L s r) (hT : Meant K table) {span : Span} {name : String}
    (hcontrol : s.control = .evaluate (.super span name) k)
    (hcls : cx.cls.any (·.inherits) = true) (hK : K ⟨span, "super", L⟩)
    (next : AfterValueRel K P cx L s.scope.frame k k') :
    Arrives K table P left s (s.readSuper table span name k) (r.readSuper span name k') := by
  have hi : k.initializing s.scope.frame = s.initializing := (State.initializing_eq hcontrol).symm
  obtain ⟨cls, hcx, hinherits⟩ := (Option.any_eq_true ..).1 hcls
  obtain ⟨d, hthis, hsuper⟩ := H.stands.surrounds cls hcx
  replace hsuper := hsuper hinherits
  have htable : table.lookup span = some (d + 1) := (hT _ hK).trans hsuper
  obtain ⟨above, above', hget, hheld, habove⟩ := H.heap.getAt_super H.stands.sees hsuper
  obtain ⟨i, c, this, hget', hheld', hv⟩ := H.heap.getAt_this H.stands.sees hthis
  unfold State.readSuper Lexical.State.readSuper Lexical.State.holds
  rw [htable, hheld, hheld']
  simp only [hget, hget']
  cases hv with
  | object _ hc =>
    have hmethod := habove.method? name
    simp only
    generalize above.method? name = method at hmethod ⊢
    generalize above'.method? name = method' at hmethod ⊢
    cases hmethod with
    | some hmethod =>
      refine H.giveMethod hmethod (.object i hc) (fun s' j b next hs' ↦ ?_) next hi
      unfold State.opens
      rw [hcontrol, hs']
    | none =>
      rw [habove.name_eq]
      exact H.fault span _

/-- A property of a value is evaluated. -/
theorem readProperty (H : Meets K P left cx L s r) {span : Span} {name : String} {v : Value}
    {v' : Lexical.Value} (hcontrol : s.control = .value v (.property span name k))
    (hv : ValueRel K P v v') (next : AfterValueRel K P cx L s.scope.frame k k') :
    Arrives K table P left s (s.readProperty span name v k) (r.readProperty span name v' k') := by
  have hi : k.initializing s.scope.frame = s.initializing := (State.initializing_eq hcontrol).symm
  have hopens : ∀ s' j b next, s'.control = .value (.function j b) next →
      s.opens s' = [.receiver b.function.span] := by
    intro s' j b next hs'
    unfold State.opens
    rw [hcontrol, hs']
  unfold State.readProperty Lexical.State.readProperty
  have hobject := hv.asObject name
  generalize v.asObject name = o at hobject ⊢
  generalize v'.asObject name = o' at hobject ⊢
  cases hobject with
  | error cause => exact H.fault span cause
  | @ok a b h =>
    obtain ⟨i, cls⟩ := a
    obtain ⟨i', cls'⟩ := b
    obtain ⟨rfl, hcls⟩ := h
    simp only [Heap.property]
    have hfield := H.heap.fields i' name
    generalize (s.heap.fields i').get? name = w at hfield ⊢
    generalize r.memory.fields i' name = w' at hfield ⊢
    cases hfield with
    | some hw => exact H.give hw next hi
    | none =>
      have hmethod := hcls.method? name
      generalize cls.method? name = c at hmethod ⊢
      generalize cls'.method? name = c' at hmethod ⊢
      cases hmethod with
      | some hc => exact H.giveMethod hc (.object i' hcls) hopens next hi
      | none =>
        rw [hcls.name_eq]
        exact H.fault span _

/-! ### Calls -/

variable {c : Closure} {c' : Lexical.Closure} {args : List Value} {args' : List Lexical.Value}

theorem forall₂_zip (hargs : List.Forall₂ (ValueRel K P) args args') (params : List Name) :
    List.Forall₂ (fun a a' ↦ a'.1 = a.1 ∧ ValueRel K P a.2 a'.2) (params.zip args)
      (params.zip args') := by
  induction hargs generalizing params with
  | nil => cases params <;> exact .nil
  | cons hv _ ih =>
    cases params with
    | nil => exact .nil
    | cons p params => exact .cons ⟨rfl, hv⟩ (ih params)

/-- The body of a function is entered, unless too many are being executed. -/
theorem enter (H : Meets K P left cx L s r) (hc : FunctionRel K P c c')
    (hargs : List.Forall₂ (ValueRel K P) args args') (hlength : args.length = c.arity)
    (next : AfterValueRel K P cx L s.scope.frame k k')
    (hi : k.initializing s.scope.frame = s.initializing) (span : Span) :
    (s.enter span c args k = s.fault span (.callsTooDeep callLimit) ∧
      r.enter span c' args' k' = r.fault span (.callsTooDeep callLimit)) ∨
    ∃ P', P'.places = P.places ++ [.function c.function.span] ∧
      Related K P' left (s.enter span c args k) (r.enter span c' args' k') := by
  unfold State.enter Lexical.State.enter
  rw [H.depth]
  by_cases hdepth : callLimit ≤ s.depth
  · rw [if_pos hdepth, if_pos hdepth]
    exact .inl ⟨rfl, rfl⟩
  rw [if_neg hdepth, if_neg hdepth]
  refine .inr ?_
  have hcall := hc
  cases hc with
  | @mk cx₁ L₁ kind f scope e b sees surrounds fits hthis initializer =>
    obtain ⟨fspan, name, params, body⟩ := f
    obtain ⟨hnodup, hnames, hbody⟩ := fits
    replace hlength : args.length = params.length := hlength
    have hparams : (params.zip args).map (·.1.text) = params.map (·.text) := by
      have hzip : (params.zip args).map (·.1) = params := List.map_fst_zip (by omega)
      simpa [Function.comp_def] using congrArg (List.map Name.text) hzip
    have hgrows := Plan.grows_enter (Nat.le_refl (P.length + 1)) (.function fspan)
    have heap := H.heap.enter scope (.function fspan)
    obtain ⟨P', hplaces, hgrows', stands, heap⟩ := heap.bindAll
      ((forall₂_zip hargs params).imp fun _ _ ha ↦ ⟨ha.1, ha.2.mono (fun _ ↦ id) hgrows.toLe⟩)
      (.enter sees (show Surrounds { cx₁ with function := some kind } L₁ from surrounds) _)
      (fun a ha ↦ hnames _ (List.of_mem_zip ha).1)
      (by rw [hparams, List.append_nil]; exact List.nodup_reverse.2 hnodup)
    rw [hparams, List.append_nil] at stands
    -- one machine makes the frame with the arguments in it, the other binds them one by one
    have hfold := Heap.foldl_setIn_child s.heap scope (params.zip args)
    rw [H.heap.size] at hfold
    replace heap := (show _ = _ from hfold) ▸ heap
    rw [← H.heap.size] at stands
    have hgrows := hgrows.trans hgrows'
    have hlt := H.stands.frame_lt
    refine ⟨P', hplaces.trans Plan.places_enter, ⟨⟨stands, rfl, ?_⟩, .ended .normal
      (.sequence hbody fun L' ↦ .leaveCall (H.stands.mono hgrows hlt) ?_
        (hcall.mono (fun _ ↦ id) hgrows.toLe) (fun h ↦ congrArg some (initializer h))
        (next.mono (hgrows.mono (Nat.le_of_lt hlt))))⟩⟩
    · rw [← hi] at heap
      exact heap
    · change s.scope.frame < s.heap.frames.size
      rw [H.heap.size]
      exact hlt

/-- An instance is made. -/
theorem construct (H : Meets K P left cx L s r) {cls : Class} {cls' : Lexical.Class}
    (hcls : ClassRel K P cls cls') (hargs : List.Forall₂ (ValueRel K P) args args')
    (hlength : args.length = cls.arity) (hopens : ∀ s', s.opens s' = (Value.cls cls).opens)
    (next : AfterValueRel K P cx L s.scope.frame k k')
    (hi : k.initializing s.scope.frame = s.initializing) (span : Span) :
    Arrives K table P left s (s.construct span cls args k) (r.construct span cls' args' k') := by
  have hobject : ValueRel K P (s.heap.newObject cls).1 (r.memory.newObject cls').1 := by
    unfold Heap.newObject Lexical.Memory.newObject
    simp only [H.heap.objects]
    exact .object _ hcls
  have heap := H.heap.newObject cls cls'
  have hinitializer := hcls.initializer?
  unfold State.construct Lexical.State.construct
  simp only [Class.arity, Value.opens] at hlength hopens ⊢
  generalize cls.initializer? = i at hinitializer hlength hopens ⊢
  generalize cls'.initializer? = i' at hinitializer ⊢
  cases hinitializer with
  | none => exact H.arrive heap (.value hobject next) hi
  | @some c c' hc =>
    obtain ⟨P', hplaces, hgrows, hbound, heap⟩ := heap.bindMethod hc hobject ⟨_, _, rfl⟩
    have hlt := H.stands.frame_lt
    have meets : Meets K P' left cx L
        { s with heap := ((s.heap.newObject cls).2.bindMethod c (s.heap.newObject cls).1).2 }
        { r with memory := ((r.memory.newObject cls').2.bindMethod c'
          (r.memory.newObject cls').1).2 } :=
      ⟨H.stands.mono hgrows hlt, H.depth, heap⟩
    replace next := next.mono (hgrows.mono (Nat.le_of_lt hlt))
    have hargs := hargs.imp fun _ _ hv ↦ hv.mono (fun _ ↦ id) hgrows.toLe
    rcases meets.enter hbound hargs hlength (.construct (hobject.mono (fun _ ↦ id) hgrows.toLe)
      next) hi span with ⟨hs, hr⟩ | ⟨P'', hplaces', hrelated⟩
    · -- the frame of the instance is there, although the call is refused
      simp only [hs, hr]
      refine .stuck hplaces ?_ heap rfl rfl nofun
      rw [hopens]
      exact ⟨[_], rfl⟩
    · refine .on (hplaces'.trans (by rw [hplaces, List.append_assoc])) ?_ hrelated
      rw [hopens]
      exact List.prefix_rfl

/-- What accepts the arguments of a call gets as many as it expects. -/
theorem length_of_accepts {v : Value} (h : v.accepts args.length = .ok ()) {name : String}
    {arity : Nat} (hv : v.signature = .ok (name, arity)) : args.length = arity := by
  unfold Value.accepts at h
  rw [hv] at h
  by_cases harity : arity = args.length
  · exact harity.symm
  · simp [bind, Except.bind, harity, throw, throwThe, MonadExceptOf.throw] at h

/-- A value is called. -/
theorem call (H : Meets K P left cx L s r) {v : Value} {v' : Lexical.Value}
    (hv : ValueRel K P v v') (hargs : List.Forall₂ (ValueRel K P) args args')
    (hopens : ∀ s', s.opens s' = v.opens) (next : AfterValueRel K P cx L s.scope.frame k k')
    (hi : k.initializing s.scope.frame = s.initializing) (span : Span) :
    Follows K table P left s (s.call span v args k) (r.call span v' args' k') := by
  unfold State.call Lexical.State.call
  rw [← hargs.length_eq, hv.accepts_eq]
  cases haccepts : v.accepts args.length with
  | error cause => exact .moved (H.fault span cause)
  | ok _ =>
    cases hv with
    | native n =>
      cases n with
      | clock => exact .waiting fun time ↦ H.give (.number time) next hi
      | input =>
        refine .waiting fun line ↦ ?_
        cases line with
        | line text => exact H.give (.string text) next hi
        | closed => exact H.give .nil next hi
        | invalid => exact H.fault span _
    | function id hc =>
      refine .moved ?_
      rcases H.enter hc hargs (length_of_accepts haccepts rfl) next hi span with
        ⟨hs, hr⟩ | ⟨P', hplaces, hrelated⟩
      · simp only [hs, hr]
        exact H.fault span _
      · refine .on hplaces ?_ hrelated
        rw [hopens]
        exact List.prefix_rfl
    | cls hcls =>
      exact .moved (H.construct hcls hargs (length_of_accepts haccepts rfl) hopens next hi span)
    | nil | bool | number | string => exact .moved (H.fault span _)
    | object id hcls =>
      simp only [Value.typeName, Lexical.Value.typeName, hcls.name_eq]
      exact .moved (H.fault span _)

/-- The next argument of a call is evaluated, or the call is made. -/
theorem nextArgument (H : Meets K P left cx L s r) {v : Value} {v' : Lexical.Value}
    (hv : ValueRel K P v v') (hargs : List.Forall₂ (ValueRel K P) args args') {rest : List Expr}
    (fits : FitsExprs K cx L rest) (hopens : rest = [] → ∀ s', s.opens s' = v.opens)
    (next : AfterValueRel K P cx L s.scope.frame k k')
    (hi : k.initializing s.scope.frame = s.initializing) (span : Span) :
    Follows K table P left s (s.nextArgument span v args rest k)
      (r.nextArgument span v' args' rest k') := by
  cases rest with
  | nil => exact H.call hv (List.rel_reverse hargs) (hopens rfl) next hi span
  | cons e rest =>
    exact .moved (H.goOn (.evaluate fits.1 (.argument hv hargs fits.2 next)) hi)

/-- The body of a function has ended. -/
theorem leaveCall (H : Meets K P left cx L s r) {cx₀ : Surroundings} {L₀ : Layers} {scope : Chain}
    {e : Lexical.Env} {flow : Flow} {flow' : Lexical.Flow}
    (hcontrol : s.control = .ended flow (.leaveCall scope c k))
    (stands : Stands P cx₀ L₀ scope e) (hc : FunctionRel K P c c')
    (hflow : FlowRel K P cx flow flow') (next : AfterValueRel K P cx₀ L₀ scope.frame k k') :
    Arrives K table P left s (s.leaveCall scope c flow k) (r.leaveCall e c' flow' k') := by
  have heap := H.heap
  have hi : s.initializing = k.initializing scope.frame :=
    State.initializing_eq hcontrol
  rw [hi] at heap
  have give {v : Value} {v' : Lexical.Value} (hv : ValueRel K P v v') :
      Arrives K table P left s
        (({ s with scope, depth := s.depth - 1 } : State).give v k)
        (({ r with env := e, depth := r.depth - 1 } : Lexical.State).give v' k') :=
    .within rfl ⟨⟨stands, congrArg (· - 1) H.depth, heap⟩, .value hv next⟩
  unfold State.leaveCall Lexical.State.leaveCall
  cases hc with
  | @mk cx₁ L₁ kind f scope₁ e₁ b sees surrounds fits hthis _ =>
    cases b with
    | true =>
      -- an initializer gives its instance, whatever its body has ended with
      obtain ⟨i, cls, w, hget, hheld, hv⟩ := heap.getAt_this sees (hthis rfl)
      simp only [if_true, Lexical.State.holds, hget, hheld]
      exact give hv
    | false =>
      cases hflow with
      | normal => exact give .nil
      | returned _ _ hv => exact give hv

end Functions

end Meets

end LoxLang
