import LoxLang.Program.Equality
import LoxLang.Proofs.Initializers
import LoxLang.Proofs.Lineages

/-!
# Calls and their arguments

A call binds its arguments exactly. The body of a function is entered by calls only, and then there
are as many arguments as parameters, no two parameters have one name, and a new frame in the scope
of the function binds each parameter to the argument in its place and nothing else
(`Moment.Reached.arguments`). A call with another number of arguments stops where it stands.

The number is compared once, when a value is called. A class compares it with the arity of its
initializer, and enters the initializer without comparing again, so the two numbers have to be the
same (`Value.body?_arity`). That the parameters differ from each other is checked in the text, and
known of every function that a session can hold (`Related.distinct`).
-/

namespace LoxLang

/-! ### Parameters with their arguments -/

theorem Table.set_of_not_mem {x : String} {t : Table} (h : x ∉ t.map (·.1)) (v : Value) :
    t.set x v = t ++ [(x, v)] := by
  induction t with
  | nil => rfl
  | cons entry t ih =>
    obtain ⟨y, w⟩ := entry
    rw [List.map_cons, List.mem_cons, not_or] at h
    rw [Table.set, if_neg h.1, ih h.2]
    rfl

/-- Parameters with different names are bound to the arguments in their places. -/
theorem argumentTable_eq_zip {params : List Name} (h : (params.map (·.text)).Nodup)
    (vs : List Value) : argumentTable params vs = (params.map (·.text)).zip vs := by
  suffices hfold : ∀ (params : List Name) (vs : List Value) (t : Table),
      (params.map (·.text)).Nodup → (∀ x ∈ params.map (·.text), x ∉ t.map (·.1)) →
      (params.zip vs).foldl (fun t b ↦ t.set b.1.text b.2) t =
        t ++ (params.map (·.text)).zip vs by
    exact hfold params vs [] h fun _ _ ↦ List.not_mem_nil
  intro params
  induction params with
  | nil => intro vs t _ _; simp
  | cons p params ih =>
    intro vs t hnodup hnew
    cases vs with
    | nil => simp
    | cons v vs =>
      rw [List.map_cons, List.nodup_cons] at hnodup
      rw [List.zip_cons_cons, List.foldl_cons, List.map_cons, List.zip_cons_cons]
      show (params.zip vs).foldl _ (t.set p.text v) = _
      rw [Table.set_of_not_mem (hnew _ List.mem_cons_self), ih _ _ hnodup.2 fun x hx ↦ ?_,
        List.append_assoc, List.singleton_append]
      rw [List.map_append, List.mem_append, not_or]
      refine ⟨hnew x (List.mem_cons_of_mem _ hx), fun hmem ↦ hnodup.1 ?_⟩
      obtain rfl : x = p.text := List.mem_singleton.1 hmem
      exact hx

/-! ### What is called -/

namespace Value

/-- The function whose body a call of the value executes. That of a class is its initializer, bound
in a frame with this number. -/
def body? (frame : FrameId) : Value → Option Closure
  | function _ c => some c
  | cls c => c.initializer?.map (·.bind frame)
  | _ => none

/-- What is called takes as many arguments as the function has parameters. -/
theorem body?_arity {v : Value} {frame : FrameId} {c : Closure} {name : String} {arity : Nat}
    (hbody : v.body? frame = some c) (hv : v.signature = .ok (name, arity)) :
    c.function.params.length = arity := by
  cases v with
  | function id c' =>
    cases hbody
    cases hv
    rfl
  | cls C =>
    cases hv
    obtain ⟨i, hi, rfl⟩ := Option.map_eq_some_iff.1 hbody
    unfold Class.arity
    rw [hi]
    rfl
  | _ => cases hbody

/-- A call binds the parameters of the function. -/
theorem body?_parameters {v : Value} {frame : FrameId} {c : Closure}
    (hbody : v.body? frame = some c) : v.parameters = c.function.params.map (·.text) := by
  cases v with
  | function id c' =>
    cases hbody
    rfl
  | cls C =>
    obtain ⟨i, hi, rfl⟩ := Option.map_eq_some_iff.1 hbody
    unfold parameters
    dsimp only
    rw [hi]
    rfl
  | _ => cases hbody

theorem accepts_eq {v : Value} {name : String} {arity : Nat} (h : v.signature = .ok (name, arity))
    (count : Nat) : v.accepts count =
      if arity = count then .ok () else .error (.arityMismatch name arity count) := by
  unfold accepts
  rw [h]
  rfl

/-- What can be called has a signature. -/
theorem callable_iff {v : Value} :
    v.callable = .ok () ↔ ∃ name arity, v.signature = .ok (name, arity) := by
  cases v with
  | native _ | function _ _ | cls _ => exact ⟨fun _ ↦ ⟨_, _, rfl⟩, fun _ ↦ rfl⟩
  | _ => exact ⟨nofun, nofun⟩

end Value

section Related

variable {K : Reference → Prop} {P : Plan} {left : List (FrameId × String)} {s : State}
  {r : Lexical.State}

/-- In an accepted program, what is called has parameters with different names. -/
theorem Related.distinct (h : Related K P left s r) {span : Span} {callee : Value}
    {vs : List Value} (hcall : s.calling? = some (span, callee, vs)) {frame : FrameId} {c : Closure}
    (hc : callee.body? frame = some c) : (c.function.params.map (·.text)).Nodup := by
  obtain ⟨callee', hcallee⟩ := h.callee hcall
  exact Value.body?_parameters hc ▸ hcallee.parameters.1

end Related

/-! ### Steps that enter a body -/

namespace State

/-- From `s` to `s'` the body of `c` is entered: it is what is done next, and then the caller goes
on. Its frame `f` is new, lies in the scope of `c`, and is the last one that there is. -/
structure Opens (s s' : State) (c : Closure) (f : FrameId) : Prop where
  control : ∃ k, s'.control = .ended .normal (.sequence c.function.body (.leaveCall s.scope c k))
  scope : s'.scope = c.scope.push f
  fresh : s.heap.frames.size ≤ f
  last : s'.heap.frames.size = f + 1

/-- From `s` to `s'` a call of this value enters a body, with these arguments in its frame. The
initializer of a class was bound before to an instance that is new. -/
structure Enters (s s' : State) (callee : Value) (vs : List Value) (c : Closure) (f : FrameId) :
    Prop extends s.Opens s' c f where
  body : callee.body? s.heap.frames.size = some c
  bound : s'.heap.frame f = argumentTable c.function.params vs
  receiver : ∀ C, callee = .cls C →
    s'.heap.frame s.heap.frames.size = [("this", .object s.heap.objects.size C)]

variable {s s' : State} {table : Distances}

/-- What is made before a body is entered: for a class, the instance and the frame in which its
initializer is bound. -/
theorem Prepares.body {k k' : AfterValue} {callee : Value} {c : Closure} {h : Heap}
    (hbody : s.Prepares k callee c h k') : callee.body? s.heap.frames.size = some c ∧
      s.heap.frames.size ≤ h.frames.size ∧
      ∀ C, callee = .cls C → s.heap.frames.size < h.frames.size ∧
        h.frame s.heap.frames.size = [("this", .object s.heap.objects.size C)] := by
  cases hbody with
  | function => exact ⟨rfl, Nat.le_refl _, nofun⟩
  | @initializer C i hi =>
    let receiver : Table := [("this", .object s.heap.objects.size C)]
    have hsize : s.heap.frames.size < (s.heap.frames.push receiver).size := by simp
    refine ⟨(congrArg (Option.map _) hi).trans rfl, Nat.le_of_lt hsize, fun C' hC ↦ ⟨hsize, ?_⟩⟩
    cases hC
    exact Heap.frame_child_self (s.heap.newObject C).2 i.scope receiver

/-- Only a call of a value that accepts its arguments enters a body. -/
theorem Steps.enters (hstep : s.Steps table s') (hdepth : s.depth < s'.depth) :
    ∃ span callee vs c f, s.calling? = some (span, callee, vs) ∧
      callee.accepts vs.length = .ok () ∧ s.Enters s' callee vs c f := by
  cases hstep.moves with
  | @calls span callee vs k k' c h hcall haccepts hbody =>
    obtain ⟨hc, hsize, hreceiver⟩ := hbody.body
    refine ⟨span, callee, vs, c, h.frames.size, hcall, haccepts,
      ⟨⟨k', rfl⟩, rfl, hsize, Array.size_push ..⟩, hc, Heap.frame_child_self h c.scope _,
      fun C hC ↦ ?_⟩
    obtain ⟨hlt, hframe⟩ := hreceiver C hC
    exact (Heap.frame_child_of_lt hlt c.scope _).trans hframe
  | returns => exact absurd hdepth (Nat.not_lt.2 (Nat.sub_le ..))
  | _ => exact absurd hdepth (Nat.lt_irrefl _)

/-! ### Steps that refuse a call -/

/-- The state is stuck because a call had the wrong number of arguments. -/
def Mismatches (s : State) : Prop :=
  ∃ span name arity count, s.control = .stuck (.fault ⟨.arityMismatch name arity count, span⟩)

/-- A call that accepts its arguments does not stop for their number. -/
theorem call_accepted {callee : Value} {vs : List Value} (h : callee.accepts vs.length = .ok ())
    (span : Span) (k : AfterValue) :
    (s.call span callee vs k).Ensures fun s' ↦ ¬ s'.Mismatches := by
  refine (s.call_called span callee vs k).imp fun s' hs' ↦ ?_
  rintro ⟨_, _, _, _, hcontrol⟩
  cases hs' with
  | refused hcause =>
    rw [h] at hcause
    cases hcause
  | _ => cases hcontrol

section Calling

variable {span : Span} {callee : Value} {vs : List Value} {name : String} {arity : Nat}

/-- A call with the wrong number of arguments stops where it stands. -/
theorem step_of_mismatch (hcall : s.calling? = some (span, callee, vs))
    (hsignature : callee.signature = .ok (name, arity)) (hcount : vs.length ≠ arity) :
    s.step table = .moved (s.fault span (.arityMismatch name arity vs.length)) := by
  obtain ⟨k, hs | ⟨cause, hcause, -⟩⟩ := s.step_of_calling? table hcall
  · rw [hs]
    unfold call
    rw [Value.accepts_eq hsignature, if_neg (Ne.symm hcount)]
  · rw [Value.callable_iff.2 ⟨_, _, hsignature⟩] at hcause
    cases hcause

theorem mismatches_iff (hcall : s.calling? = some (span, callee, vs))
    (hsignature : callee.signature = .ok (name, arity)) :
    (∃ s', s.Steps table s' ∧ s'.Mismatches) ↔ vs.length ≠ arity := by
  refine ⟨fun ⟨s', hstep, span', name', arity', count, hs'⟩ hcount ↦ ?_, fun hcount ↦
    ⟨_, .moved (step_of_mismatch hcall hsignature hcount), _, _, _, _, rfl⟩⟩
  have haccepts : callee.accepts vs.length = .ok () := by
    rw [Value.accepts_eq hsignature, if_pos hcount.symm]
  obtain ⟨k, hs | ⟨cause, hcause, -⟩⟩ := s.step_of_calling? table hcall
  · exact hstep.ensured (p := fun s' ↦ ¬ s'.Mismatches) (hs ▸ call_accepted haccepts span k)
      ⟨span', name', arity', count, hs'⟩
  · rw [Value.callable_iff.2 ⟨_, _, hsignature⟩] at hcause
    cases hcause

end Calling

end State

/-! ### Expressions that call -/

namespace Direct

open LoxLang.Direct.Action
open Progress (Leads)

variable {table : Distances} {n : Nat} {e : Expr} {es : List Expr} {v : Value} {vs : List Value}
  {σ τ : Store}

/-- Where an expression has a value, the machine comes to this value. -/
theorem leads_of_evaluate (h : evaluate table n e σ = .finished (.ok v) τ) (k : AfterValue) :
    (Progress.moved (σ.at (.evaluate e k))).Leads table σ.world (.moved (τ.at (.value v k)))
      τ.world := by
  have hfollows := (follows table n).1 e σ k
  unfold Follows at hfollows
  rwa [h] at hfollows

theorem of_each_cons (h : each (evaluate table n) (e :: es) σ = .finished (.ok vs) τ) :
    ∃ w ws σ', vs = w :: ws ∧ evaluate table n e σ = .finished (.ok w) σ' ∧
      each (evaluate table n) es σ' = .finished (.ok ws) τ := by
  obtain ⟨w, σ', hw, h⟩ := of_bind_ok h
  obtain ⟨ws, σ'', hws, h⟩ := of_bind_ok h
  cases h
  exact ⟨w, ws, σ', rfl, hw, hws⟩

/-- Each expression has one value. -/
theorem length_of_each (h : each (evaluate table n) es σ = .finished (.ok vs) τ) :
    vs.length = es.length := by
  induction es generalizing σ vs with
  | nil =>
    cases h
    rfl
  | cons e es ih =>
    obtain ⟨w, ws, σ', rfl, -, hws⟩ := of_each_cons h
    exact congrArg (· + 1) (ih hws)

/-- Where the remaining arguments have values, the machine comes to the call with all of them. -/
theorem leads_of_each (h : each (evaluate table n) es σ = .finished (.ok vs) τ) (span : Span)
    (callee v : Value) (known : List Value) (k : AfterValue) :
    ∃ c, (Progress.moved (σ.at (.value v (.argument span callee known es k)))).Leads table σ.world
        (.moved (τ.at c)) τ.world ∧
      (τ.at c).calling? = some (span, callee, (v :: known).reverse ++ vs) := by
  induction es generalizing σ vs v known with
  | nil =>
    cases h
    exact ⟨_, .refl _ _, by rw [List.append_nil]; rfl⟩
  | cons e es ih =>
    obtain ⟨w, ws, σ', rfl, hw, hws⟩ := of_each_cons h
    obtain ⟨c, hleads, hcall⟩ := ih hws w (v :: known)
    exact ⟨c, .on ((leads_of_evaluate hw _).trans hleads), hcall.trans (by simp)⟩

/-- Where the callee of a call and its arguments have values, the machine comes to the call. -/
theorem leads_of_call {t : State} {span : Span} {callee : Expr} {k : AfterValue} {w : World}
    (hcontrol : t.control = .evaluate (.call span callee es) k)
    (hcallee : evaluate table n callee ⟨t.scope, t.depth, t.heap, w⟩ = .finished (.ok v) σ)
    (hcallable : v.callable = .ok ()) (hes : each (evaluate table n) es σ = .finished (.ok vs) τ) :
    ∃ c, (Progress.moved t).Leads table w (.moved (τ.at c)) τ.world ∧
      (τ.at c).calling? = some (span, v, vs) := by
  have hvalue : (Progress.moved t).Leads table w
      (.moved (σ.at (.value v (.callee span es k)))) σ.world := by
    refine .on ?_
    unfold State.step
    rw [hcontrol]
    exact leads_of_evaluate hcallee _
  cases es with
  | nil =>
    cases hes
    exact ⟨_, hvalue, rfl⟩
  | cons e es =>
    obtain ⟨u, us, σ', rfl, hu, hus⟩ := of_each_cons hes
    obtain ⟨c, hleads, hcall⟩ := leads_of_each hus span v u [] k
    refine ⟨c, hvalue.trans (.on ?_), hcall⟩
    show ((σ.at _).accept table v (.callee span (e :: es) k)).Leads _ _ _ _
    unfold State.accept
    simp only [hcallable]
    exact (leads_of_evaluate hu _).trans hleads

end Direct

/-! ### Every call -/

namespace Moment

/-- What a body is entered with. -/
theorem Reached.enters {s : Session} {t t' : State} {places : List Place}
    (h : (running s t places).Reached) (hstep : t.Steps s.distances t')
    (hdepth : t.depth < t'.depth) : ∃ span callee vs c f,
      t.calling? = some (span, callee, vs) ∧ t.Enters t' callee vs c f ∧
        vs.length = c.function.params.length ∧ (c.function.params.map (·.text)).Nodup ∧
        t'.heap.frame f = (c.function.params.map (·.text)).zip vs := by
  obtain ⟨span, callee, vs, c, f, hcall, haccepts, henters⟩ := hstep.enters hdepth
  obtain ⟨known, -, hsound, -⟩ := h.sound
  obtain ⟨-, P, left, r, -, related⟩ := hsound.related hstep.not_isStuck
  have hdistinct := related.distinct hcall henters.body
  refine ⟨span, callee, vs, c, f, hcall, henters, ?_, hdistinct, ?_⟩
  · obtain ⟨name, arity, hsignature⟩ := Value.callable_iff.1 (Value.callable_of_accepts haccepts)
    rw [Value.accepts_eq hsignature] at haccepts
    rw [Value.body?_arity henters.body hsignature]
    split at haccepts
    · rename_i hcount
      exact hcount.symm
    · cases haccepts
  · rw [henters.bound, argumentTable_eq_zip hdistinct]

/-- Calls bind their arguments exactly. Whenever a body is entered, then by a call with as many
arguments as the function has parameters; these have different names, and the frame that is opened
for the body in the scope of the function binds each to the argument in its place. A call of what
can be called stops for a wrong number of arguments just if their number is not the arity, which for
a class is that of the nearest initializer in its lineage, and then nothing is changed. A call
expression whose callee has a value that can be called, and whose arguments have values, comes to
the call of this value with these arguments, one for each expression. -/
theorem Reached.arguments {s : Session} {t : State} {places : List Place}
    (h : (running s t places).Reached) :
    (∀ t', t.Steps s.distances t' → t.depth < t'.depth → ∃ span callee vs c f,
      t.calling? = some (span, callee, vs) ∧ t.Enters t' callee vs c f ∧
        vs.length = c.function.params.length ∧ (c.function.params.map (·.text)).Nodup ∧
        t'.heap.frame f = (c.function.params.map (·.text)).zip vs) ∧
    (∀ span callee vs, t.calling? = some (span, callee, vs) → callee.callable = .ok () →
      ∃ name arity, callee.signature = .ok (name, arity) ∧
        (∀ C, callee = .cls C → arity =
          (C.lineage.findSome? (·.methods.lookup FunDecl.initializer)).elim 0 Closure.arity) ∧
        ((∃ t', t.Steps s.distances t' ∧ t'.Mismatches) ↔ vs.length ≠ arity) ∧
        (vs.length ≠ arity → t.step s.distances =
          .moved (t.fault span (.arityMismatch name arity vs.length)))) ∧
    ∀ span callee es k n w v vs σ τ, t.control = .evaluate (.call span callee es) k →
      Direct.evaluate s.distances n callee ⟨t.scope, t.depth, t.heap, w⟩ = .finished (.ok v) σ →
      v.callable = .ok () →
      Direct.each (Direct.evaluate s.distances n) es σ = .finished (.ok vs) τ →
      vs.length = es.length ∧ ∃ c places',
        (running s t places).Later (running s (τ.at c) places') ∧
          (τ.at c).calling? = some (span, v, vs) := by
  refine ⟨fun t' ↦ h.enters, fun span callee vs hcall hcallable ↦ ?_,
    fun span callee es k n w v vs σ τ hcontrol hcallee hcallable hes ↦
      ⟨Direct.length_of_each hes, ?_⟩⟩
  · obtain ⟨name, arity, hsignature⟩ := Value.callable_iff.1 hcallable
    refine ⟨name, arity, hsignature, fun C hC ↦ ?_, State.mismatches_iff hcall hsignature,
      State.step_of_mismatch hcall hsignature⟩
    subst hC
    cases hsignature
    rw [← Class.method?_eq]
    rfl
  · obtain ⟨c, hleads, hcall⟩ := Direct.leads_of_call hcontrol hcallee hcallable hes
    obtain ⟨places', hlater⟩ := exists_later_of_leads places hleads
    exact ⟨c, places', hlater, hcall⟩

/-- A class is called that inherits its initializer. -/
theorem Reached.arguments_inherited :
    ∃ (s : Session) (p : Program) (t t' : State) (places : List Place) (C : Class) (c : Closure)
      (f : FrameId),
      Session.new.load "class A \x7b init(x) \x7b\x7d \x7d class B < A \x7b\x7d B(nil);" =
        (s, .ok p) ∧ (running s t places).Reached ∧ t.Steps s.distances t' ∧
      t.calling? = some (⟨38, 44⟩, .cls C, [.nil]) ∧ C.methods = [] ∧
      t.Enters t' (.cls C) [.nil] c f ∧ t'.heap.frame f = [("x", .nil)] := by
  have hload : Session.new.load "class A \x7b init(x) \x7b\x7d \x7d class B < A \x7b\x7d B(nil);" =
      (⟨"class A \x7b init(x) \x7b\x7d \x7d class B < A \x7b\x7d B(nil);\n", [], Session.new.heap⟩,
      .ok [.classDecl ⟨0, 22⟩ "A" none [.mk ⟨10, 20⟩ "init" [⟨"x", ⟨15, 16⟩⟩] []],
        .classDecl ⟨23, 37⟩ "B" (some ⟨"A", ⟨33, 34⟩⟩) [],
        .expression ⟨38, 45⟩ (.call ⟨38, 44⟩ (.var ⟨38, 39⟩ "B") [.literal ⟨40, 43⟩ .nil])]) :=
    Session.load_of_read Session.globalNames_new (by decide +kernel) rfl rfl rfl
  generalize "class A \x7b init(x) \x7b\x7d \x7d class B < A \x7b\x7d B(nil);" = text at hload ⊢
  generalize hs : (⟨_, _, _⟩ : Session) = s at hload
  generalize hp : List.cons (Stmt.classDecl ⟨0, 22⟩ "A" none _) _ = p at hload
  have hstart : (running s (.start s.heap p) []).Reached := .tail .refl (.accept hload)
  let init : FunDecl := .mk ⟨10, 20⟩ "init" [⟨"x", ⟨15, 16⟩⟩] []
  let A : Class := .mk 0 "A" none [("init", ⟨init, Heap.globals, true⟩)]
  let B : Class := .mk 1 "B" (some A) []
  let frames : Array Table := #[[("clock", .native .clock), ("input", .native .input),
    ("A", .cls A), ("B", .cls B)], [("super", .cls A)]]
  -- the state in which the argument is known and the class is called
  let t : State := ⟨.value .nil (.argument ⟨38, 44⟩ (.cls B) [] [] (.discard (.sequence [] .done))),
    Heap.globals, 0, ⟨frames, #[], 0, 2⟩⟩
  have ht : ∃ places, (running s (.start s.heap p) []).ahead 12 = running s t places := by
    subst hs hp
    exact ⟨_, rfl⟩
  obtain ⟨places, ht⟩ := ht
  have hreached : (running s t places).Reached := hstart.later (ht ▸ later_ahead 12 _)
  have hstep : t.Steps s.distances
      (t.construct ⟨38, 44⟩ B [.nil] (.discard (.sequence [] .done))) := .moved rfl
  obtain ⟨span, callee, vs, c, f, hcall, henters, -, -, hframe⟩ :=
    (Reached.arguments hreached).1 _ hstep (Nat.lt_succ_self 0)
  cases hcall
  obtain rfl := Option.some.inj henters.body
  exact ⟨s, p, t, _, places, B, _, f, hload, hreached, hstep, rfl, rfl, henters, hframe⟩

end Moment

end LoxLang
