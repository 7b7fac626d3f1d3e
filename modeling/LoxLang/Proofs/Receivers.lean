import LoxLang.Program.Equality
import LoxLang.Proofs.Callees

/-!
# The receiver of a method

A method that is bound to an instance stands in a frame of its own, which binds `this`. The body of
the method and the functions that descend from it (`Moment.Descends`) run in scopes inside of the
scope of that frame, with no other such frame in between. There `this` has the distance that leads
to the frame, and `super` the one that leads just past it, to the frame in which the class of the
method keeps its superclass. Neither frame is ever written again, so both words mean the same
whenever and from wherever the code is called (`Moment.Descends.this_and_super_fixed`).
-/

namespace LoxLang

/-! ### Layers of receivers -/

/-- The layer of a receiver declares `this`. -/
def Layers.Armed (L : Layers) : Prop := ∀ l ∈ L, ∀ span, l.place = .receiver span → "this" ∈ l.names

namespace Layers.Armed

variable {L : Layers}

/-- A layer of a receiver has to bind it. -/
theorem cons (h : L.Armed) {l : Layer} (hl : ∀ span, l.place = .receiver span → "this" ∈ l.names) :
    Layers.Armed (l :: L) :=
  List.forall_mem_cons.2 ⟨hl, h⟩

/-- A declaration takes no receiver away. -/
theorem declare (h : L.Armed) (x : String) : (L.declare x).Armed := by
  cases L with
  | nil => exact h
  | cons l L =>
    obtain ⟨hl, hL⟩ := List.forall_mem_cons.1 h
    exact cons hL fun span hspan ↦ List.mem_cons_of_mem x (hl span hspan)

/-- After a statement, every receiver is bound still. -/
theorem after (h : L.Armed) (s : Stmt) : (L.after s).Armed := by
  unfold Layers.after
  cases s.declares with
  | none => exact h
  | some x => exact h.declare x

theorem after? (h : L.Armed) (s : Option Stmt) : (L.after? s).Armed := by
  cases s with
  | none => exact h
  | some s => exact h.after s

theorem ofClass (h : L.Armed) (parent : Option Name) : (L.ofClass parent).Armed := by
  cases parent with
  | none => exact h
  | some p => exact h.cons fun _ h ↦ by cases h

/-- Around a method its receiver is bound. -/
theorem ofMethod (h : L.Armed) (f : FunDecl) : (L.ofMethod f).Armed :=
  h.cons fun _ _ ↦ List.mem_singleton_self _

end Layers.Armed

namespace Reference

mutual

/-- Every reference stands in layers in which those of receivers declare `this`. -/
theorem armed_ofExpr {L : Layers} (hL : L.Armed) (e : Expr) : ∀ r ∈ ofExpr L e, r.layers.Armed :=
  match e with
  | .literal .. => nofun
  | .var .. | .step .. | .this .. | .super .. => List.forall_mem_singleton.2 hL
  | .assign _ _ value =>
    List.forall_mem_append.2 ⟨armed_ofExpr hL value, List.forall_mem_singleton.2 hL⟩
  | .group _ inner => armed_ofExpr hL inner
  | .unary _ _ operand => armed_ofExpr hL operand
  | .binary _ _ left right =>
    List.forall_mem_append.2 ⟨armed_ofExpr hL left, armed_ofExpr hL right⟩
  | .call _ callee arguments =>
    List.forall_mem_append.2 ⟨armed_ofExpr hL callee, armed_ofExprs hL arguments⟩
  | .property _ object _ => armed_ofExpr hL object
  | .setProperty _ object _ value =>
    List.forall_mem_append.2 ⟨armed_ofExpr hL value, armed_ofExpr hL object⟩
  | .lambda f => armed_ofFunction hL f

theorem armed_ofExprs {L : Layers} (hL : L.Armed) (es : List Expr) :
    ∀ r ∈ ofExprs L es, r.layers.Armed :=
  match es with
  | [] => nofun
  | e :: rest => List.forall_mem_append.2 ⟨armed_ofExpr hL e, armed_ofExprs hL rest⟩

theorem armed_ofExpr? {L : Layers} (hL : L.Armed) (e : Option Expr) :
    ∀ r ∈ ofExpr? L e, r.layers.Armed :=
  match e with
  | none => nofun
  | some e => armed_ofExpr hL e

theorem armed_ofFunction {L : Layers} (hL : L.Armed) (f : FunDecl) :
    ∀ r ∈ ofFunction L f, r.layers.Armed :=
  match f with
  | .mk _ _ _ body => armed_ofStmts (hL.cons fun _ h ↦ by cases h) body

theorem armed_ofMethods {L : Layers} (hL : L.Armed) (fs : List FunDecl) :
    ∀ r ∈ ofMethods L fs, r.layers.Armed :=
  match fs with
  | [] => nofun
  | f :: rest =>
    List.forall_mem_append.2 ⟨armed_ofFunction (hL.ofMethod f) f, armed_ofMethods hL rest⟩

theorem armed_ofStmt {L : Layers} (hL : L.Armed) (s : Stmt) : ∀ r ∈ ofStmt L s, r.layers.Armed :=
  match s with
  | .expression _ value | .print _ value => armed_ofExpr hL value
  | .varDecl _ name value => armed_ofExpr? (hL.declare name) value
  | .funDecl f => armed_ofFunction (hL.declare f.name) f
  | .classDecl _ name parent methods => by
    refine List.forall_mem_append.2
      ⟨fun r hr ↦ ?_, armed_ofMethods ((hL.declare name).ofClass parent) methods⟩
    obtain ⟨p, -, rfl⟩ := List.mem_map.1 hr
    exact hL.declare name
  | .block _ body => armed_ofStmts (hL.cons fun _ h ↦ by cases h) body
  | .conditional _ condition yes no =>
    List.forall_mem_append.2 ⟨List.forall_mem_append.2
      ⟨armed_ofExpr hL condition, armed_ofStmt hL yes⟩, armed_ofStmt? hL no⟩
  | .whileLoop _ condition body =>
    List.forall_mem_append.2 ⟨armed_ofExpr hL condition, armed_ofStmt hL body⟩
  | .forLoop span init condition step body =>
    have outer : Layers.Armed (⟨.loop span, []⟩ :: L) := hL.cons fun _ h ↦ by cases h
    have inner := outer.after? init
    List.forall_mem_append.2 ⟨List.forall_mem_append.2 ⟨List.forall_mem_append.2
      ⟨armed_ofStmt? outer init, armed_ofExpr? inner condition⟩, armed_ofExpr? inner step⟩,
      armed_ofStmt inner body⟩
  | .returns _ value => armed_ofExpr? hL value

theorem armed_ofStmts {L : Layers} (hL : L.Armed) (ss : List Stmt) :
    ∀ r ∈ ofStmts L ss, r.layers.Armed :=
  match ss with
  | [] => nofun
  | s :: rest => List.forall_mem_append.2 ⟨armed_ofStmt hL s, armed_ofStmts (hL.after s) rest⟩

theorem armed_ofStmt? {L : Layers} (hL : L.Armed) (s : Option Stmt) :
    ∀ r ∈ ofStmt? L s, r.layers.Armed :=
  match s with
  | none => nofun
  | some s => armed_ofStmt hL s

end

end Reference

/-! ### Distances inside of a method -/

/-- The layers of a scope inside of a receiver's declare `this` just where its frame is. -/
theorem Plan.Sees.hops?_this {P : Plan} {L : Layers} {base : FrameId} {inner outer : List FrameId}
    {names : List (String × Nat)} (sees : P.Sees L (inner ++ base :: outer) names)
    (harmed : L.Armed)
    (hthis : ∀ f c, P.cell? f "this" = some c → ∃ span, P.place? f = some (.receiver span))
    (hinner : ∀ f ∈ inner, ∀ span, P.place? f ≠ some (.receiver span)) {span : Span}
    (hbase : P.place? base = some (.receiver span)) : L.hops? "this" = some inner.length := by
  induction inner generalizing L names with
  | nil =>
    rw [List.nil_append] at sees
    cases sees with
    | globals => cases hbase
    | layer cells hplace _ _ _ =>
      have hspan := Option.some.inj (hplace.symm.trans hbase)
      rw [Layers.hops?_cons, if_pos (List.forall_mem_cons.1 harmed |>.1 span hspan)]
      rfl
  | cons f inner ih =>
    rw [List.cons_append] at sees
    obtain ⟨hf, hinner⟩ := List.forall_mem_cons.1 hinner
    generalize hframes : inner ++ base :: outer = frames at sees
    cases sees with
    | globals => simp at hframes
    | @layer cells l L f frames names hplace hnames hcells h =>
      subst hframes
      have hl : "this" ∉ l.names := fun hmem ↦ by
        obtain ⟨c, hc⟩ := Option.ne_none_iff_exists'.1
          (mt (Plan.Sees.lookup_eq_none hnames).1 (not_not.2 hmem))
        obtain ⟨span, hspan⟩ := hthis f c (hcells _ _ hc)
        exact hf span hspan
      rw [Layers.hops?_cons, if_neg hl, ih h (List.forall_mem_cons.1 harmed).2 hinner]
      rfl

/-! ### Events -/

/-- The step makes a class with a superclass. -/
inductive State.Extends (table : Distances) (s s' : State) (above c : Class) : Prop
  | mk {span : Span} {name : String} {methods : List FunDecl} {k : AfterStmt}
      (hcontrol : s.control = .value (.cls above) (.inherit span name methods k))
      (hstep : s.step table = .moved s')
      (hc : (s.heap.newClass s.scope name (some above) methods).1 = .cls c)

namespace State

variable {table : Distances} {s s' : State} {m : Closure} {r : Value} {above c : Class}

/-- What binds a method is a step. -/
theorem Binds.steps (h : s.Binds table s' m r) : s.Steps table s' := by
  cases h with
  | property _ _ _ hstep _ | super _ _ _ hstep _ | construct _ _ _ hstep _ => exact .moved hstep

/-- A call leaves the frames that are there alone. -/
theorem frame_enter_of_lt {f : FrameId} (hf : f < s.heap.frames.size) (span : Span) (c : Closure)
    (vs : List Value) (k : AfterValue) :
    f < (s.enter span c vs k).heap.frames.size ∧
      (s.enter span c vs k).heap.frame f = s.heap.frame f := by
  unfold enter
  split
  · exact ⟨hf, rfl⟩
  · refine ⟨?_, Heap.frame_child_of_lt hf c.scope _⟩
    show f < (Array.push _ _).size
    rw [Array.size_push]
    exact Nat.lt_succ_of_lt hf

/-- The instance is what `this` means in the frame of the method. -/
theorem Binds.get?_this (h : s.Binds table s' m r) :
    s.heap.frames.size < s'.heap.frames.size ∧
      (s'.heap.frame s.heap.frames.size).get? "this" = some r := by
  have hbound (h : Heap) (hframes : h.frames = s.heap.frames) :
      s.heap.frames.size < (h.bindMethod m r).2.frames.size ∧
        ((h.bindMethod m r).2.frame s.heap.frames.size).get? "this" = some r := by
    rw [← hframes]
    refine ⟨?_, congrArg (Table.get? · "this") (Heap.frame_child_self h m.scope _)⟩
    show _ < (Array.push _ _).size
    rw [Array.size_push]
    exact Nat.lt_succ_self _
  cases h with
  | property _ _ _ _ hs' | super _ _ _ _ hs' =>
    subst hs'
    exact hbound s.heap rfl
  | @construct span c arguments k _ hm hr _ hs' =>
    subst hs' hr
    obtain ⟨hlt, hthis⟩ := hbound (s.heap.newObject c).2 rfl
    unfold State.construct
    rw [hm]
    dsimp only
    obtain ⟨hlt', hframe⟩ := frame_enter_of_lt (s := { s with
      heap := ((s.heap.newObject c).2.bindMethod m (s.heap.newObject c).1).2 }) hlt span
      ((s.heap.newObject c).2.bindMethod m (s.heap.newObject c).1).1 arguments
      (.construct (s.heap.newObject c).1 k)
    exact ⟨hlt', (congrArg (Table.get? · "this") hframe).trans hthis⟩

/-- The methods of the class stand just inside of the frame that keeps the superclass. -/
theorem Extends.get?_super (h : s.Extends table s' above c) (hnames : ∀ x ∈ s.binds, IsName x) :
    s.heap.frames.size < s'.heap.frames.size ∧
      (s'.heap.frame s.heap.frames.size).get? "super" = some (.cls above) ∧
      ∀ x ∈ c.methods, x.2.scope.frame = s.heap.frames.size := by
  obtain @⟨span, name, methods, k, hcontrol, hstep, hc⟩ := h
  have hname : IsName name := by
    unfold binds at hnames
    rw [hcontrol] at hnames
    exact hnames name (List.mem_singleton_self name)
  unfold step at hstep
  rw [hcontrol] at hstep
  obtain rfl := Progress.moved.inj hstep
  have hframe := Heap.frame_child_self s.heap s.scope [("super", .cls above)]
  refine ⟨?_, ?_, fun x hx ↦ ?_⟩
  · show _ < (Array.modify (Array.push _ _) _ _).size
    rw [Array.size_modify, Array.size_push]
    exact Nat.lt_succ_self _
  · refine (Heap.get?_frame_setIn_of_ne hname.2.symm _ _ _ _).trans ?_
    exact congrArg (Table.get? · "super") hframe
  · obtain rfl := Value.cls.inj hc
    obtain ⟨f, -, rfl⟩ := List.mem_map.1 (List.mem_reverse.1 hx)
    rfl

end State

/-! ### What `this` and `super` mean -/

section Related

variable {K : Reference → Prop} {table : Distances} {P : Plan} {left : List (FrameId × String)}
  {s : State} {r : Lexical.State} {base : Chain} {this : Value}

/-- Where the scope is inside of that of a receiver, `this` has the distance of the frame of the
receiver. -/
theorem Meets.hops?_this {cx : Surroundings} {L : Layers} (H : Meets K P left cx L s r)
    (harmed : L.Armed) (htidy : s.heap.Tidy P.places) (hinside : base.Inside P.places s.scope)
    {place : Span} (hbase : placeOf? P.places base.frame = some (.receiver place)) :
    ∃ d, L.hops? "this" = some d ∧ s.scope.ancestor? d = some base.frame ∧
      s.scope.ancestor? (d + 1) = base.outer.head? := by
  obtain ⟨inner, hframes, hinner⟩ := hinside.exists_frames
  have hreceiver (f c : Nat) (hc : P.cell? f "this" = some c) :
      ∃ span, P.place? f = some (.receiver span) := by
    obtain ⟨place, hplace⟩ := Option.isSome_iff_exists.1 (Plan.place?_of_cell? hc)
    obtain ⟨i, cls, hthis⟩ := H.heap.this hc
    rw [hplace]
    rw [P.place?_eq] at hplace
    cases f with
    | zero => cases hplace
    | succ f =>
      obtain ⟨span, rfl⟩ := htidy.this hplace (Option.isSome_of_eq_some hthis)
      exact ⟨span, rfl⟩
  have hinner' : ∀ f ∈ inner, ∀ span, P.place? f ≠ some (.receiver span) := fun f hf span hspan ↦
    hinner f hf span ((P.place?_eq f).symm.trans hspan)
  have sees := H.stands.sees
  rw [hframes] at sees
  refine ⟨inner.length, sees.hops?_this harmed hreceiver hinner' ((P.place?_eq _).trans hbase),
    ?_, ?_⟩
  · rw [Chain.ancestor?, hframes]
    simp [Chain.frames]
  · rw [Chain.ancestor?, hframes, List.getElem?_append_right (Nat.le_add_right _ 1),
      Nat.add_sub_cancel_left]
    simp [Chain.frames, List.head?_eq_getElem?]

variable (h : Related K P left s r) (hT : Meant K table) (harmed : ∀ r, K r → r.layers.Armed)
  (htidy : s.heap.Tidy P.places) (hinside : base.Inside P.places s.scope) {place : Span}
  (hbase : placeOf? P.places base.frame = some (.receiver place))
  (hthis : (s.heap.frame base.frame).get? "this" = some this)
include h hT harmed htidy hinside hbase hthis

/-- Inside of a method, `this` is the receiver. -/
theorem Related.step_this {span : Span} {k : AfterValue}
    (hcontrol : s.control = .evaluate (.this span) k) : s.step table = .moved (s.give this k) := by
  obtain ⟨H, control⟩ := h
  rw [hcontrol] at control
  generalize r.control = c' at control
  cases control with
  | evaluate fits _ =>
    obtain ⟨-, hK⟩ := fits
    obtain ⟨d, hd, hancestor, -⟩ := H.hops?_this (harmed _ hK) htidy hinside hbase
    have hlookup : table.lookup span = some d := (hT _ hK).trans hd
    unfold State.step State.evaluate State.read State.lookup State.frameOf Heap.ancestor
    simp only [hcontrol, hlookup, hancestor, Option.elim, Except.mapError, hthis]

/-- Inside of a method, `super` is the class that is kept just outside of the receiver. -/
theorem Related.step_super {span : Span} {name : String} {k : AfterValue}
    (hcontrol : s.control = .evaluate (.super span name) k) {outer : FrameId} {above : Class}
    (houter : base.outer.head? = some outer)
    (habove : (s.heap.frame outer).get? "super" = some (.cls above)) :
    s.step table = .moved (match above.method? name with
      | some method => s.giveMethod method this k
      | none => s.fault span (.noSuchAttribute above.name name)) := by
  obtain @⟨cx, L, H, control⟩ := h
  rw [hcontrol] at control
  generalize r.control = c' at control
  cases control with
  | evaluate fits _ =>
    obtain ⟨hcls, hK⟩ := fits
    obtain ⟨d, hd, hancestor, hsucc⟩ := H.hops?_this (harmed _ hK) htidy hinside hbase
    -- `super` is declared one layer further out than `this`
    have hsuper : L.hops? "super" = some (d + 1) := by
      obtain ⟨c, hc, hinherits⟩ := (Option.any_eq_true ..).1 hcls
      obtain ⟨d', hd', hsuper⟩ := H.stands.surrounds c hc
      obtain rfl := Option.some.inj (hd.symm.trans hd')
      exact hsuper hinherits
    have hlookup : table.lookup span = some (d + 1) := (hT _ hK).trans hsuper
    -- and what the frame binds `this` to is an instance
    obtain ⟨id, c, rfl⟩ : ∃ id c, this = .object id c := by
      obtain ⟨f, cell, l, hf, -, hcell, -⟩ := H.stands.sees.of_hops? hd
      obtain rfl := Option.some.inj (hf.symm.trans hancestor)
      obtain ⟨i, cls, hobject⟩ := H.heap.this hcell
      exact ⟨i, cls, Option.some.inj (hthis.symm.trans hobject)⟩
    unfold State.step State.evaluate State.readSuper Heap.getAt Heap.ancestor
    simp only [hcontrol, hlookup, hsucc, houter, habove, hancestor, hthis, Option.elim, Except.map]
    cases above.method? name <;> rfl

end Related

/-! ### What descends from a method -/

/-- The step makes a function: its expression is evaluated, or its declaration executed. -/
def State.Makes (s : State) (f : FunDecl) : Prop :=
  (∃ k, s.control = .evaluate (.lambda f) k) ∨ ∃ l, s.control = .execute (.funDecl f) l

namespace Moment

/-- The function descends from one that there is since an earlier moment: it is that function, or it
was made while one that descends from it was being executed. -/
inductive Descends (M₀ : Moment) (base : Closure) : Moment → Closure → Prop
  | self {M : Moment} (hlater : M₀.Later M) : Descends M₀ base M base
  | made {s : Session} {t : State} {places : List Place} {c : Closure} {f : FunDecl} {M : Moment}
      (h : Descends M₀ base (running s t places) c) (hcallee : t.callee? = some c)
      (hmakes : t.Makes f) (hlater : (running s t places).Later M) :
      Descends M₀ base M ⟨f, t.scope, false⟩

/-- What descends from a function at a moment is executed later. -/
theorem Descends.later {M₀ M : Moment} {base c : Closure} (h : Descends M₀ base M c) :
    M₀.Later M := by
  induction h with
  | self hlater => exact hlater
  | made _ _ _ hlater ih => exact ih.trans hlater

/-- What descends from a function stands inside of its scope. -/
theorem Descends.inside {M₀ M : Moment} {base c : Closure} (h : Descends M₀ base M c)
    (hM₀ : M₀.Reached) : base.scope.Inside M.places c.scope := by
  induction h with
  | self => exact .here
  | @made s t places c f M h hcallee hmakes hlater ih =>
    have hreached := hM₀.later h.later
    have hscope := (Reached.nested hreached).inside hcallee
    exact (ih.trans hscope).mono (hlater.keeps hreached).2

/-- The frame of a method that was bound is that of a receiver, and binds `this` as it did. -/
theorem Later.receiver {s s' : Session} {t t' u : State} {places places' : List Place}
    {m : Closure} {r : Value} (hreached : (running s t places).Reached)
    (hbinds : t.Binds s.distances t' m r)
    (hlater : (running s t' (places ++ t.opened t')).Later (running s' u places')) :
    (u.heap.frame t.heap.frames.size).get? "this" = some r ∧
      ∃ span, placeOf? places' t.heap.frames.size = some (.receiver span) := by
  have hreached' := hreached.step hbinds.steps
  obtain ⟨-, -, -, htidy⟩ := (hreached'.later hlater).sound
  obtain ⟨-, -, -, htidy₀⟩ := hreached.sound
  have hkeeps : t'.heap.Keeps u.heap := (hlater.keeps hreached').1
  have hsize : u.heap.frames.size = places'.length + 1 := htidy.size
  have hsize₀ : t.heap.frames.size = places.length + 1 := htidy₀.size
  obtain ⟨hlt, hthis⟩ := hbinds.get?_this
  have hthis' : (u.heap.frame t.heap.frames.size).get? "this" = some r :=
    (hkeeps.get? hlt fun h ↦ h.1 rfl).trans hthis
  refine ⟨hthis', ?_⟩
  have hlt' : places.length < places'.length := by
    have hframes := hkeeps.frames
    omega
  have hget : places'[places.length]? = some places'[places.length] := List.getElem?_eq_getElem hlt'
  rw [hsize₀] at hthis' ⊢
  obtain ⟨span, hspan⟩ := htidy.this hget (Option.isSome_of_eq_some hthis')
  exact ⟨span, hget.trans (congrArg some hspan)⟩

/-- The frame that keeps the superclass binds `super` as it did. -/
theorem Later.superclass {s s' : Session} {t t' u : State} {places places' : List Place}
    {above c : Class} (hreached : (running s t places).Reached)
    (hextends : t.Extends s.distances t' above c)
    (hlater : (running s t' (places ++ t.opened t')).Later (running s' u places')) :
    (u.heap.frame t.heap.frames.size).get? "super" = some (.cls above) ∧
      ∀ x ∈ c.methods, x.2.scope.frame = t.heap.frames.size := by
  obtain @⟨_, _, _, _, hcontrol, hstep, _⟩ := id hextends
  have hsteps : t.Steps s.distances t' := .moved hstep
  obtain ⟨known, -, hsound, -⟩ := hreached.sound
  obtain ⟨-, _, _, _, rfl, related⟩ := hsound.related hsteps.not_isStuck
  obtain ⟨hlt, hsuper, hscope⟩ := hextends.get?_super related.isName
  have hkeeps : t'.heap.Keeps u.heap := (hlater.keeps (hreached.step hsteps)).1
  exact ⟨(hkeeps.get? hlt fun h ↦ h.2 rfl).trans hsuper, hscope⟩

/-- What `this` and `super` mean is fixed by the method, and not by who calls it. A method is bound
to an instance at one moment; at another, a function is being executed that is this method or
descends from it. Then `this` evaluates to the instance. If besides the method is one of a class
that was made with a superclass, `super` finds the method of the superclass and binds it to the same
instance, or there is none. -/
theorem Descends.this_and_super_fixed {s s' : Session} {t t' u : State}
    {places places' : List Place} {m c : Closure} {r : Value}
    (hreached : (running s t places).Reached) (hbinds : t.Binds s.distances t' m r)
    (h : (running s t' (places ++ t.opened t')).Descends (m.bind t.heap.frames.size)
      (running s' u places') c) (hcallee : u.callee? = some c) :
    (∀ span k, u.control = .evaluate (.this span) k →
      u.step s'.distances = .moved (u.give r k)) ∧
    ∀ (s₀ : Session) (t₀ t₁ : State) (places₀ : List Place) (above cls : Class) (x : String),
      (running s₀ t₀ places₀).Reached → t₀.Extends s₀.distances t₁ above cls →
      (running s₀ t₁ (places₀ ++ t₀.opened t₁)).Later (running s t places) →
      (x, m) ∈ cls.methods →
      ∀ span name k, u.control = .evaluate (.super span name) k →
        u.step s'.distances = .moved (match above.method? name with
          | some method => u.giveMethod method r k
          | none => u.fault span (.noSuchAttribute above.name name)) := by
  have hreached' := hreached.step hbinds.steps
  have hreachedᵤ := hreached'.later h.later
  have hinside : (m.bind t.heap.frames.size).scope.Inside places' u.scope :=
    (h.inside hreached').trans ((Reached.nested hreachedᵤ).inside hcallee)
  obtain ⟨hthis, place, hplace⟩ := h.later.receiver hreached hbinds
  obtain ⟨known, hknown, hsound, htidy⟩ := hreachedᵤ.sound
  have harmed : ∀ r ∈ known, r.layers.Armed := fun r hr ↦ by
    obtain ⟨p, hp⟩ := hknown r hr
    exact Reference.armed_ofStmts (List.forall_mem_nil _) p r hp
  refine ⟨fun span k hcontrol ↦ ?_, fun s₀ t₀ t₁ places₀ above cls x hreached₀ hextends hlater₀ hx
    span name k hcontrol ↦ ?_⟩
  · have hstuck : ¬ u.IsStuck := fun ⟨_, h⟩ ↦ Control.noConfusion (h.symm.trans hcontrol)
    obtain ⟨hknows, P, left, r', rfl, related⟩ := hsound.related hstuck
    exact related.step_this hknows.lookup harmed htidy hinside hplace hthis hcontrol
  · have hstuck : ¬ u.IsStuck := fun ⟨_, h⟩ ↦ Control.noConfusion (h.symm.trans hcontrol)
    obtain ⟨hknows, P, left, r', rfl, related⟩ := hsound.related hstuck
    have hlater : (running s₀ t₁ (places₀ ++ t₀.opened t₁)).Later (running s' u P.places) :=
      (hlater₀.tail (.step hbinds.steps)).trans h.later
    obtain ⟨hsuper, hscope⟩ := hlater.superclass hreached₀ hextends
    exact related.step_super hknows.lookup harmed htidy hinside hplace hthis hcontrol
      (congrArg some (hscope _ hx)) hsuper

/-- A method makes a function in which a method of the superclass is read. It is called after the
method has returned, and the method of the superclass is bound to the same instance. -/
theorem Descends.super_after_return :
    ∃ (s : Session) (p : Program) (u : State) (places : List Place) (k : AfterValue)
      (r : Value) (method : Closure),
      Session.new.load ("class A \x7b m() \x7b\x7d \x7d class B < A \x7b m() " ++
        "\x7b fun f() \x7b return super.m; \x7d return f; \x7d \x7d B().m()();") = (s, .ok p) ∧
      (running s u places).Reached ∧ u.control = .evaluate (.super ⟨56, 63⟩ "m") k ∧
      u.step s.distances = .moved (u.giveMethod method r k) := by
  have hload : Session.new.load ("class A \x7b m() \x7b\x7d \x7d class B < A \x7b m() " ++
        "\x7b fun f() \x7b return super.m; \x7d return f; \x7d \x7d B().m()();") =
      (⟨"class A \x7b m() \x7b\x7d \x7d class B < A \x7b m() " ++
        "\x7b fun f() \x7b return super.m; \x7d return f; \x7d \x7d B().m()();\n",
        [(⟨74, 75⟩, 0), (⟨56, 63⟩, 3)], Session.new.heap⟩,
      .ok [.classDecl ⟨0, 18⟩ "A" none [.mk ⟨10, 16⟩ "m" [] []],
        .classDecl ⟨19, 80⟩ "B" (some ⟨"A", ⟨29, 30⟩⟩) [.mk ⟨33, 78⟩ "m" []
          [.funDecl (.mk ⟨39, 66⟩ "f" [] [.returns ⟨49, 64⟩ (some (.super ⟨56, 63⟩ "m"))]),
            .returns ⟨67, 76⟩ (some (.var ⟨74, 75⟩ "f"))]],
        .expression ⟨81, 91⟩ (.call ⟨81, 90⟩ (.call ⟨81, 88⟩
          (.property ⟨81, 86⟩ (.call ⟨81, 84⟩ (.var ⟨81, 82⟩ "B") []) "m") []) [])]) :=
    Session.load_of_read Session.globalNames_new (by decide +kernel) rfl rfl rfl
  generalize "class A \x7b m() \x7b\x7d \x7d class B < A \x7b m() " ++
        "\x7b fun f() \x7b return super.m; \x7d return f; \x7d \x7d B().m()();" = text at hload ⊢
  generalize hs : (⟨_, _, _⟩ : Session) = s at hload
  generalize hp : List.cons (Stmt.classDecl ⟨0, 18⟩ "A" none _) _ = p at hload
  have hstart : (running s (.start s.heap p) []).Reached := .tail .refl (.accept hload)
  obtain ⟨t₀, t₁, places₀, above, cls, t, t', places₁, m, r, v, places₂, f, u, places₃, k, method,
      h₀, hextends, h₁, hm, hbinds, h₂, hcallee, hmakes, h₃, hcallee', hcontrol, hmethod⟩ :
      ∃ t₀ t₁ places₀ above cls t t' places₁ m r v places₂ f u places₃ k method,
        (running s (.start s.heap p) []).ahead 5 = running s t₀ places₀ ∧
        t₀.Extends s.distances t₁ above cls ∧
        (running s t₁ (places₀ ++ t₀.opened t₁)).ahead 8 = running s t places₁ ∧
        ("m", m) ∈ cls.methods ∧ t.Binds s.distances t' m r ∧
        (running s t' (places₁ ++ t.opened t')).ahead 2 = running s v places₂ ∧
        v.callee? = some (m.bind t.heap.frames.size) ∧ v.Makes f ∧
        (running s v places₂).ahead 10 = running s u places₃ ∧
        u.callee? = some ⟨f, v.scope, false⟩ ∧
        u.control = .evaluate (.super ⟨56, 63⟩ "m") k ∧ above.method? "m" = some method := by
    subst hs hp
    exact ⟨_, _, _, _, _, _, _, _, _, _, _, _, _, _, _, _, _, rfl, .mk rfl rfl rfl, rfl,
      List.mem_singleton_self _, .property rfl rfl rfl rfl rfl, rfl, rfl, .inr ⟨_, rfl⟩, rfl, rfl,
      rfl, rfl⟩
  have hlater {t v : State} {places places' : List Place} {n : Nat}
      (h : (running s t places).ahead n = running s v places') :
      (running s t places).Later (running s v places') := h ▸ later_ahead n _
  have hreached₀ := hstart.later (hlater h₀)
  obtain @⟨_, _, _, _, _, hstep, _⟩ := id hextends
  have hreached := (hreached₀.step (.moved hstep)).later (hlater h₁)
  have h := (Descends.this_and_super_fixed hreached hbinds
    (.made (.self (hlater h₂)) hcallee hmakes (hlater h₃)) hcallee').2 s t₀ t₁ places₀ above cls "m"
    hreached₀ hextends (hlater h₁) hm _ _ _ hcontrol
  rw [hmethod] at h
  exact ⟨s, p, u, places₃, k, r, method, hload, ((hreached.step hbinds.steps).later
    (hlater h₂)).later (hlater h₃), hcontrol, h⟩

end Moment

end LoxLang
