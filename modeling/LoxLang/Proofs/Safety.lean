import LoxLang.Program.Equality
import LoxLang.Proofs.Lexical.Refinement
import LoxLang.Proofs.Sessions

/-!
# Scope safety

At every reference that is reached in a session, the chain of frames is the one that the scopes in
the text call for (`Session.History.safe`): it has a frame for each layer around the reference,
made for the scope of that layer, and the global frame. So a distance never leads past the end of
the chain, and of all anomalies only the read of a local variable without a value is left. Such a
variable is being initialized, or it belongs to a frame whose initialization an earlier source of
the session never finished; a function that was stored before may still see it.
-/

namespace LoxLang

variable {K : Reference → Prop} {table : Distances} {P : Plan} {left : List (FrameId × String)}
  {places : List Place} {s s' : State} {r : Lexical.State}

/-! ### Steps and runs -/

/-- A state that is related to one of the other machine is not stuck. -/
theorem Related.not_isStuck (h : Related K P left s r) : ¬ s.IsStuck := by
  rintro ⟨t, ht⟩
  obtain ⟨_, control⟩ := h
  rw [ht] at control
  cases control

/-- Whatever a state steps to, the other machine has a state for it. -/
theorem Related.arrives (h : Related K P left s r) (hT : Meant K table) (hstep : s.Steps table s') :
    ∃ r', Arrives K table P left s s' r' := by
  have hfollows := h.follows hT
  generalize r.step = o at hfollows
  cases hstep with
  | moved hs =>
    rw [hs] at hfollows
    cases hfollows with
    | moved h' => exact ⟨_, h'⟩
  | replied hs hs' =>
    rw [hs] at hfollows
    cases hfollows with
    | waiting h' => exact hs' ▸ ⟨_, h' _⟩

/-- A plan grows by just the scopes that are opened. -/
theorem HeapRel.places_eq {missing missing' : List (FrameId × String)} {m m' : Lexical.Memory}
    {P' : Plan} (H : HeapRel K P missing s.heap m) (H' : HeapRel K P' missing' s'.heap m')
    {new : List Place} (places : P'.places = P.places ++ new) (opened : new <+: s.opens s') :
    P'.places = P.places ++ s.opened s' := by
  have hlength := congrArg List.length places
  simp only [Plan.places, List.length_append, List.length_map] at hlength
  rw [places, State.opened, H.size, H'.size, List.prefix_iff_eq_take.1 opened]
  congr 2
  omega

/-- What is reached from a state that has a partner has one too, unless it is stuck. -/
theorem Related.of_reaches (h : Related K P left s r) (hT : Meant K table)
    (hreaches : s.Reaches table P.places s' places) (hstuck : ¬ s'.IsStuck) :
    ∃ P' r', P'.places = places ∧ Related K P' left s' r' := by
  induction hreaches with
  | refl => exact ⟨P, r, rfl, h⟩
  | step _ hstep ih =>
    obtain ⟨P', r', rfl, h'⟩ := ih hstep.not_isStuck
    obtain ⟨r'', harrives⟩ := h'.arrives hT hstep
    obtain ⟨H', _⟩ := h'
    cases harrives with
    | @on P'' _ hplaces opened related =>
      have ⟨H'', _⟩ := related
      exact ⟨P'', r'', H'.heap.places_eq H''.heap hplaces opened, related⟩
    | stuck _ _ _ hs _ _ => exact absurd ⟨_, hs⟩ hstuck

/-- A reference that is reached stands in layers that the chain of frames belongs to. -/
theorem Related.of_reference? (h : Related K P left s r) {span : Span} {x : String}
    (hx : s.reference? = some (span, x)) :
    ∃ cx L, K ⟨span, x, L⟩ ∧ Stands P cx L s.scope r.env := by
  obtain ⟨H, control⟩ := h
  rename_i cx L
  refine ⟨cx, L, ?_, H.stands⟩
  unfold State.reference? at hx
  generalize s.control = c at control hx
  generalize r.control = c' at control
  cases control with
  | execute | ended => cases hx
  | @evaluate e _ _ fits =>
    cases e <;> cases hx
    · exact fits
    · exact fits.2
    · exact fits.2
    · exact fits.2
  | value _ next =>
    cases next <;> cases hx
    assumption

/-- An anomaly is the read of a local variable without a value. -/
theorem Related.anomaly_iff (h : Related K P left s r) (hT : Meant K table) (a : Anomaly) :
    (∃ s', s.Steps table s' ∧ s'.control = .stuck (.anomaly a)) ↔
      ∃ f x, a = .missingLocal x ∧ s.ReadsEmpty table f x := by
  constructor
  · rintro ⟨s', hstep, hs'⟩
    obtain ⟨r', harrives⟩ := h.arrives hT hstep
    cases harrives with
    | on _ _ related => exact absurd ⟨_, hs'⟩ related.not_isStuck
    | stuck _ _ _ hs _ excused =>
      rw [hs'] at hs
      obtain ⟨f, x, ha, hreads, -⟩ := excused a (Control.stuck.inj hs).symm
      exact ⟨f, x, ha, hreads⟩
  · rintro ⟨f, x, rfl, span, next, d, hcontrol, hd, hf, hx⟩
    have hlookup : s.lookup table span x = .error (.anomaly (.missingLocal x)) := by
      unfold State.lookup State.frameOf Heap.ancestor
      rw [hd]
      simp only [hf, Option.elim, Except.mapError, hx]
    refine ⟨{ s with control := .stuck (.anomaly (.missingLocal x)) }, .moved ?_, rfl⟩
    unfold State.step
    rcases hcontrol with hcontrol | ⟨side, op, hcontrol⟩
    · rw [hcontrol]
      simp only [State.evaluate, State.read, hlookup]
    · rw [hcontrol]
      simp only [State.evaluate, State.stepVariable, hlookup]

/-- A local variable that is read without a value is being initialized, or was when an earlier
program was left. -/
theorem Related.mem_of_readsEmpty (h : Related K P left s r) (hT : Meant K table) {f : FrameId}
    {x : String} (hreads : s.ReadsEmpty table f x) : (f, x) ∈ s.initializing ++ left := by
  obtain ⟨span, next, d, hcontrol, hd, hf, hx⟩ := hreads
  have hreference : s.reference? = some (span, x) := by
    unfold State.reference?
    rcases hcontrol with hcontrol | ⟨side, op, hcontrol⟩ <;> rw [hcontrol]
  obtain ⟨cx, L, hK, stands⟩ := h.of_reference? hreference
  obtain ⟨g, c, l, hg, -, hc, -⟩ := stands.sees.of_hops? ((hT _ hK).symm.trans hd)
  obtain rfl := Option.some.inj (hg.symm.trans hf)
  obtain ⟨H, _⟩ := h
  exact H.heap.ready hc hx

/-! ### Sessions -/

/-- After any history, the heap of the session is that of the machine with lexical environments,
and the distances are those of the references that were accepted. -/
theorem Session.History.heapRel {s : Session} {known : List Reference}
    (h : s.History known places left) :
    s.Knows known ∧ ∃ P m, P.places = places ∧ HeapRel (· ∈ known) P left s.heap m := by
  induction h with
  | new => exact ⟨knows_new, [], _, rfl, .new _⟩
  | @refused s s' _ _ _ text _ _ hload ih =>
    obtain ⟨hs, P, m, hplaces, heap⟩ := ih
    have hheap := heap_load s text
    rw [hload] at hheap
    exact ⟨hs.refuse hload, P, m, hplaces, hheap ▸ heap⟩
  | @ran s s' known places places' left text p t _ hload hreaches hstuck ih =>
    obtain ⟨hs, P, m, rfl, heap⟩ := ih
    obtain ⟨hs', related⟩ := hs.start heap hload
    obtain ⟨P', r', hplaces, H', _⟩ := related.of_reaches hs'.lookup hreaches hstuck
    exact ⟨hs'.withHeap _, P', _, hplaces, H'.heap⟩
  | @stopped s s' known places places' left text p t t' _ hload hreaches hstep hstuck ih =>
    obtain ⟨hs, P, m, rfl, heap⟩ := ih
    obtain ⟨hs', related⟩ := hs.start heap hload
    obtain ⟨P', r', rfl, related'⟩ := related.of_reaches hs'.lookup hreaches hstep.not_isStuck
    obtain ⟨r'', harrives⟩ := related'.arrives hs'.lookup hstep
    obtain ⟨H', _⟩ := related'
    cases harrives with
    | on _ _ related => exact absurd hstuck related.not_isStuck
    | stuck hplaces opened heap' _ _ _ =>
      exact ⟨hs'.withHeap _, _, _, H'.heap.places_eq heap' hplaces opened, heap'⟩

/-- A run of at most so many steps reaches the state that it stops in, or is one step from being
stuck there. -/
theorem Related.exists_reached (h : Related K P left s r) (hT : Meant K table) {s₀ : State}
    {places₀ : List Place} (hreaches : s₀.Reaches table places₀ s places) (n : Nat) (w : World) :
    ∃ t places', s₀.Reaches table places₀ t places' ∧
      ((¬ t.IsStuck ∧ (s.run table n w).2.1 = t.heap) ∨
        ∃ t', t.Steps table t' ∧ t'.IsStuck ∧ (s.run table n w).2.1 = t'.heap) := by
  induction n generalizing P s r w places with
  | zero => exact ⟨s, places, hreaches, .inl ⟨h.not_isStuck, rfl⟩⟩
  | succ n ih =>
    have arrives {s' : State} {r' : Lexical.State} (h' : Arrives K table P left s s' r')
        (hstep : s.Steps table s') (w : World) :
        ∃ t places', s₀.Reaches table places₀ t places' ∧
          ((¬ t.IsStuck ∧ (s'.run table n w).2.1 = t.heap) ∨
            ∃ t', t.Steps table t' ∧ t'.IsStuck ∧ (s'.run table n w).2.1 = t'.heap) := by
      cases h' with
      | on _ _ related => exact ih related (hreaches.step hstep) w
      | stuck _ _ _ hs _ _ =>
        exact ⟨s, places, hreaches, .inr ⟨s', hstep, ⟨_, hs⟩, (State.run_of_stuck hs n w).1⟩⟩
    have hfollows := h.follows hT
    generalize ho : s.step table = o at hfollows
    generalize r.step = o' at hfollows
    cases hfollows with
    | moved h' =>
      rw [State.run_of_moved ho]
      exact arrives h' (.moved ho) w
    | waiting h' =>
      rw [State.run_of_waiting ho]
      exact arrives (h' _) (.replied ho rfl) _
    | done _ _ _ =>
      rw [State.run, ho]
      exact ⟨s, places, hreaches, .inl ⟨h.not_isStuck, rfl⟩⟩

/-- Whatever source is run, and for however many steps: the session has a history still. -/
theorem Session.History.run {s : Session} {known : List Reference} (h : s.History known places left)
    (n : Nat) (w : World) (text : String) :
    ∃ known' places' left', (s.run n w text).2.2.History known' places' left' := by
  rcases hload : s.load text with ⟨s', faults | p⟩
  · unfold Session.run
    rw [hload]
    exact ⟨_, _, _, h.refused hload⟩
  · obtain ⟨hs, P, m, rfl, heap⟩ := h.heapRel
    obtain ⟨hs', related⟩ := hs.start heap hload
    obtain ⟨t, places', hreaches, ht⟩ := related.exists_reached hs'.lookup .refl n w
    unfold Session.run
    rw [hload]
    dsimp only
    rcases ht with ⟨hstuck, hheap⟩ | ⟨t', hstep, hstuck, hheap⟩
    · rw [hheap]
      exact ⟨_, _, _, h.ran hload hreaches hstuck⟩
    · rw [hheap]
      exact ⟨_, _, _, h.stopped hload hreaches hstep hstuck⟩

/-- In every session, and at every state that an accepted program reaches: the only anomaly is the
read of a local variable without a value; such a variable is being initialized, or was when an
earlier program of the session was stopped; and at each reference the chain of frames is that of the
layers around it, so its distance leads to the frame of the scope that declares the name. -/
theorem Session.History.safe {s s' : Session} {known : List Reference} {places places' : List Place}
    {left : List (FrameId × String)} (h : s.History known places left) {text : String}
    {p : Program} (hload : s.load text = (s', .ok p)) {t : State}
    (hreaches : (State.start s'.heap p).Reaches s'.distances places t places') :
    (∀ a, (∃ t', t.Steps s'.distances t' ∧ t'.control = .stuck (.anomaly a)) ↔
      ∃ f x, a = .missingLocal x ∧ t.ReadsEmpty s'.distances f x) ∧
    (∀ f x, t.ReadsEmpty s'.distances f x → (f, x) ∈ t.initializing ∨ (f, x) ∈ left) ∧
    ∀ span x, t.reference? = some (span, x) →
      ∃ L, ⟨span, x, L⟩ ∈ p.references ++ known ∧ s'.distances.lookup span = L.hops? x ∧
        t.scope.outer.length = L.length ∧ ∀ d l, L[d]? = some l →
          ∃ f, t.scope.ancestor? d = some (f + 1) ∧ places'[f]? = some l.place := by
  by_cases hstuck : t.IsStuck
  · -- A state that is stuck has no next step, and so reads nothing either.
    obtain ⟨trouble, ht⟩ := hstuck
    have hreads (f : FrameId) (x : String) : ¬ t.ReadsEmpty s'.distances f x := by
      rintro ⟨span, next, d, hcontrol | ⟨side, op, hcontrol⟩, -⟩ <;>
        exact Control.noConfusion (ht.symm.trans hcontrol)
    refine ⟨fun a ↦ ⟨fun ⟨t', hstep, _⟩ ↦ absurd ⟨_, ht⟩ hstep.not_isStuck,
      fun ⟨f, x, _, h⟩ ↦ absurd h (hreads f x)⟩, fun f x h ↦ absurd h (hreads f x),
      fun span x hx ↦ ?_⟩
    rw [State.reference?, ht] at hx
    cases hx
  obtain ⟨hs, P, m, rfl, heap⟩ := h.heapRel
  obtain ⟨hs', related⟩ := hs.start heap hload
  obtain ⟨P', r', rfl, related'⟩ := related.of_reaches hs'.lookup hreaches hstuck
  refine ⟨related'.anomaly_iff hs'.lookup, fun f x hreads ↦ ?_, fun span x hx ↦ ?_⟩
  · exact List.mem_append.1 (related'.mem_of_readsEmpty hs'.lookup hreads)
  · obtain ⟨cx, L, hK, stands⟩ := related'.of_reference? hx
    refine ⟨L, hK, hs'.lookup _ hK, ?_, fun d l hl ↦ stands.sees.place_of_getElem? hl⟩
    exact Nat.succ.inj stands.sees.length_eq

/-- The variable of a block is read where the block declares it. -/
theorem Session.History.safe_block :
    ∃ s p t places, Session.new.load "\x7b var x; x; \x7d" = (s, .ok p) ∧
      (State.start s.heap p).Reaches s.distances [] t places ∧
      t.reference? = some (⟨9, 10⟩, "x") ∧
      ∃ L, ⟨⟨9, 10⟩, "x", L⟩ ∈ p.references ∧ s.distances.lookup ⟨9, 10⟩ = L.hops? "x" ∧
        t.scope.outer.length = L.length ∧ ∀ d l, L[d]? = some l →
          ∃ f, t.scope.ancestor? d = some (f + 1) ∧ places[f]? = some l.place := by
  have hload : Session.new.load "\x7b var x; x; \x7d" =
      (⟨"\x7b var x; x; \x7d\n", [(⟨9, 10⟩, 0)], Session.new.heap⟩,
        .ok [.block ⟨0, 13⟩
          [.varDecl ⟨2, 8⟩ "x" none, .expression ⟨9, 11⟩ (.var ⟨9, 10⟩ "x")]]) :=
    Session.load_of_read Session.globalNames_new (by decide +kernel) rfl rfl rfl
  obtain ⟨t, places, hreaches, ht⟩ : ∃ t places,
      (State.start Session.new.heap [.block ⟨0, 13⟩
        [.varDecl ⟨2, 8⟩ "x" none, .expression ⟨9, 11⟩ (.var ⟨9, 10⟩ "x")]]).Reaches
          [(⟨9, 10⟩, 0)] [] t places ∧ t.reference? = some (⟨9, 10⟩, "x") :=
    ⟨_, _, State.Reaches.refl |>.step (.moved rfl) |>.step (.moved rfl) |>.step (.moved rfl)
      |>.step (.moved rfl) |>.step (.moved rfl) |>.step (.moved rfl), rfl⟩
  obtain ⟨L, hL, h⟩ := (Session.History.safe .new hload hreaches).2.2 _ _ ht
  rw [List.append_nil] at hL
  exact ⟨_, _, t, places, hload, hreaches, ht, L, hL, h⟩

/-- The initializer of a variable, which stops the program after it has stored a function that reads
the variable. -/
def Program.abandoning : Program :=
  [.varDecl ⟨0, 6⟩ "f" none,
    .block ⟨7, 52⟩ [.varDecl ⟨9, 50⟩ "x" (some (.binary ⟨17, 49⟩ .add
      (.group ⟨17, 43⟩ (.assign ⟨18, 42⟩ "f" (.lambda (.mk ⟨22, 42⟩ FunDecl.anonymous []
        [.returns ⟨31, 40⟩ (some (.var ⟨38, 39⟩ "x"))]))))
      (.literal ⟨46, 49⟩ .nil)))]]

/-- What the program leaves: the frame of its variable binds nothing, and the function sees that
frame. -/
def Heap.abandoned : Heap :=
  { frames := #[[("clock", .native .clock), ("input", .native .input),
      ("f", .function 0 ⟨.mk ⟨22, 42⟩ FunDecl.anonymous []
        [.returns ⟨31, 40⟩ (some (.var ⟨38, 39⟩ "x"))], ⟨1, [0]⟩, false⟩)], []]
    objects := #[], nextFunction := 1, nextClass := 0 }

/-- The next source declares nothing, and calls the function: the variable is read although nothing
is being initialized. -/
theorem Session.History.abandoned_initializer :
    ∃ s s' known places places' left p t t', Session.History s known places left ∧
      s.source = "var f; \x7b var x = (f = fun () \x7b return x; \x7d) + nil; \x7d\n" ∧
      s.load "f();" = (s', .ok p) ∧
      (State.start s'.heap p).Reaches s'.distances places t places' ∧ t.initializing = [] ∧
      t.Steps s'.distances t' ∧ t'.control = .stuck (.anomaly (.missingLocal "x")) := by
  have hload : Session.new.load "var f; \x7b var x = (f = fun () \x7b return x; \x7d) + nil; \x7d" =
      (⟨"var f; \x7b var x = (f = fun () \x7b return x; \x7d) + nil; \x7d\n", [(⟨38, 39⟩, 1)],
          Session.new.heap⟩, .ok .abandoning) :=
    Session.load_of_read Session.globalNames_new (by decide +kernel) rfl rfl rfl
  have hnames : (Heap.abandoned.frame Heap.globals.frame).names = ["clock", "f", "input"] :=
    Table.names_eq (by decide +kernel) (by decide +kernel)
  have hload' : Session.load ⟨"var f; \x7b var x = (f = fun () \x7b return x; \x7d) + nil; \x7d\n",
          [(⟨38, 39⟩, 1)], .abandoned⟩ "f();" =
        (⟨"var f; \x7b var x = (f = fun () \x7b return x; \x7d) + nil; \x7d\nf();\n",
            [(⟨38, 39⟩, 1)], .abandoned⟩,
          .ok [.expression ⟨53, 57⟩ (.call ⟨53, 56⟩ (.var ⟨53, 54⟩ "f") [])]) :=
    Session.load_of_read hnames (by decide +kernel) rfl rfl rfl
  obtain ⟨t, places, t', history, hheap⟩ : ∃ (t : State) (places : List Place) (t' : State),
      Session.History ⟨"var f; \x7b var x = (f = fun () \x7b return x; \x7d) + nil; \x7d\n",
        [(⟨38, 39⟩, 1)], t'.heap⟩ (Program.abandoning.references ++ []) places
          (t.initializing ++ []) ∧ t'.heap = .abandoned :=
    ⟨_, _, _, .stopped .new hload (State.Reaches.refl
      |>.step (.moved rfl) |>.step (.moved rfl) |>.step (.moved rfl) |>.step (.moved rfl)
      |>.step (.moved rfl) |>.step (.moved rfl) |>.step (.moved rfl) |>.step (.moved rfl)
      |>.step (.moved rfl) |>.step (.moved rfl) |>.step (.moved rfl) |>.step (.moved rfl)
      |>.step (.moved rfl)) (.moved rfl) ⟨_, rfl⟩, rfl⟩
  rw [hheap] at history
  exact ⟨_, _, _, _, _, _, _, _, _, history, rfl, hload', State.Reaches.refl
    |>.step (.moved rfl) |>.step (.moved rfl) |>.step (.moved rfl) |>.step (.moved rfl)
    |>.step (.moved rfl) |>.step (.moved rfl) |>.step (.moved rfl), rfl, .moved rfl, rfl⟩

end LoxLang
