import LoxLang.Program.Equality
import LoxLang.Proofs.Globals.Bound
import LoxLang.Proofs.Safety
import LoxLang.Proofs.Sequel
import LoxLang.Proofs.Sessions

/-!
# Two sources as one

Two sources that are run one after the other do the same as one source, in which they stand on
either side of a line break (`Session.History.run_append`). The text of the second is read where it
is read as a source of its own, and the distances of the two programs make up the same table. When
the first program has ended, the machine is in the state in which it begins the second: in the
global scope, outside of all calls. And the walk over the second program knows the same names as in
a source of its own, or more: all names that the first program has bound are finished in its text.
-/

namespace LoxLang

variable {B : String → Prop} {K : Reference → Prop} {table table' : Distances} {P : Plan}
  {left : List (FrameId × String)} {s : State} {r : Lexical.State}

/-! ### Names and references -/

theorem Table.mem_names {t : Table} {x : String} : x ∈ t.names ↔ (t.get? x).isSome := by
  unfold names
  rw [List.mem_mergeSort]
  induction t with
  | nil => simp
  | cons e t ih =>
    obtain ⟨y, v⟩ := e
    rw [List.map_cons, List.mem_cons, get?_cons, ih]
    split <;> simp_all

theorem Program.references_append (p q : Program) :
    Program.references (p ++ q) = p.references ++ q.references := by
  unfold references
  induction p with
  | nil => rfl
  | cons stmt p ih =>
    -- no name is declared in the layers at the top of a program
    have htop : Layers.after [] stmt = [] := by
      unfold Layers.after
      cases stmt.declares <;> rfl
    rw [List.cons_append, Reference.ofStmts, Reference.ofStmts, htop, ih, List.append_assoc]

theorem Finding.ofStmts_append (cx : Surroundings) (S : Scopes) (p q : Program) :
    ofStmts cx S (p ++ q) =
      ((ofStmts cx (ofStmts cx S p).1 q).1,
        (ofStmts cx S p).2 ++ (ofStmts cx (ofStmts cx S p).1 q).2) := by
  induction p generalizing S with
  | nil => rfl
  | cons stmt p ih => simp only [List.cons_append, ofStmts, ih, List.append_assoc]

/-- If the first program binds all new names, then together the two have only faults that one of
them has on its own. -/
theorem Program.findings_append {p q : Program} {names names' : List String}
    (hp : Finding.faults (p.findings names) = []) (hq : Finding.faults (q.findings names') = [])
    (hnames : ∀ x ∈ names', x ∈ names ∨ x ∈ p.binds) :
    Finding.faults (Program.findings names (p ++ q)) = [] := by
  have hsettles := (Scopes.Settled.ofGlobals names).ofStmts {} p
  have hprecedes : (Scopes.ofGlobals names').Precedes
      (Finding.ofStmts {} (.ofGlobals names) p).1 := by
    refine hsettles.toSettled.precedes rfl fun x hx ↦ ?_
    rcases hnames x (Scopes.lookup_ofGlobals.1 hx) with hx | hx
    · exact hsettles.keeps x (Scopes.lookup_ofGlobals.2 hx)
    · exact hsettles.adds x hx
  have hfewer := (hprecedes.ofStmts {} q).2
  unfold Program.findings at hp hq ⊢
  rw [Finding.ofStmts_append, Finding.faults_append, hp]
  unfold Scopes.Precedes.Fewer at hfewer
  rw [hq, List.sublist_nil] at hfewer
  exact hfewer

/-! ### Taking in the two sources -/

/-- If the first program has bound no names but its own, then the two sources are accepted as one:
with the program that is theirs together, and with the same distances. -/
theorem Session.load_append {s s' s₂ : Session} {heap : Heap} {text text' : String}
    {p q : Program} (hp : s.load text = (s', .ok p))
    (hq : Session.load { s' with heap } text' = (s₂, .ok q))
    (hnames : ∀ x ∈ Session.globalNames { s' with heap }, x ∈ s.globalNames ∨ x ∈ p.binds) :
    s.load (text ++ "\n" ++ text') = ({ s₂ with heap := s.heap }, .ok (p ++ q)) := by
  obtain ⟨hread, hfaults, hs'⟩ := load_eq_ok.1 hp
  obtain ⟨hread', hfaults', hs₂⟩ := load_eq_ok.1 hq
  subst hs'
  subst hs₂
  have hsize : (s.source ++ text ++ "\n").utf8ByteSize =
      s.source.utf8ByteSize + text.utf8ByteSize + 1 := by
    rw [String.utf8ByteSize_append, String.utf8ByteSize_append]
    rfl
  rw [hsize] at hread'
  have hreads := Program.read_append hread hread'
  have hnone := Program.findings_append (List.isEmpty_iff.1 hfaults) (List.isEmpty_iff.1 hfaults')
    hnames
  have hdistances : Finding.distances (Program.findings s.globalNames (p ++ q)) =
      Finding.distances (p.findings s.globalNames) ++
        Finding.distances (q.findings (Session.globalNames { s with heap })) := by
    rw [((Program.proper_of_read hreads).walk _).1, ((Program.proper_of_read hread).walk _).1,
      ((Program.proper_of_read hread').walk _).1, Program.references_append, List.filterMap_append]
  refine load_eq_ok.2 ⟨hreads, by rw [hnone, List.isEmpty_nil], ?_⟩
  rw [hdistances, List.reverse_append]
  simp only [String.append_assoc, List.append_assoc]
  rfl

/-! ### Running the two programs -/

/-- A program does not end by a `return`. -/
theorem FlowRel.eq_normal {cx : Surroundings} {L : Layers} {f : FrameId} {flow : Flow}
    {flow' : Lexical.Flow} {k' : Lexical.AfterStmt} (h : FlowRel K P cx flow flow')
    (hdone : AfterStmtRel K P cx L f .done k') : flow = .normal := by
  cases h with
  | normal => rfl
  | returned hcx _ _ =>
    cases hdone with
    | done hcx' =>
      rw [hcx'] at hcx
      cases hcx

theorem Related.of_atEnd (h : Related K P left s r) (hend : s.AtEnd) :
    s.control = .ended .normal .done ∨ s.control = .ended .normal (.sequence [] .done) := by
  obtain ⟨H, control⟩ := h
  generalize s.scope.frame = f at control
  generalize r.control = c' at control
  rcases hend with ⟨flow, hs⟩ | ⟨flow, rest, hs, hrest⟩
  · rw [hs] at control
    cases control with
    | ended hflow next =>
      obtain rfl := hflow.eq_normal next
      exact .inl hs
  · rw [hs] at control
    cases control with
    | ended hflow next =>
      cases next with
      | sequence _ next =>
        obtain rfl := hflow.eq_normal (next [])
        obtain rfl := hrest rfl
        exact .inr hs

/-- No reference leads to the global frame by a distance. -/
theorem Related.isLocal (h : Related K P left s r) (hT : Meant K table) {span : Span} {x : String}
    (hx : s.reference? = some (span, x)) {d : Nat} (hd : table.lookup span = some d) :
    s.scope.ancestor? d ≠ some 0 := by
  obtain ⟨cx, L, hK, stands⟩ := h.of_reference? hx
  obtain ⟨f, c, l, hf, -, -, hl, hplace⟩ := stands.sees.of_hops? ((hT _ hK).symm.trans hd)
  intro h0
  obtain rfl := Option.some.inj (hf.symm.trans h0)
  cases hplace

/-- When nothing is left of a program, its sequel begins: in the global scope, outside of calls. -/
theorem Related.withSequel_of_done (h : Related K P left s r) (hT : Meant K table)
    (hB : s.Confined B) (hs : s.control = .ended .normal .done) (q : Program) :
    s.step table = .stopped .done s.heap ∧ s.withSequel q = State.start s.heap q := by
  have hstep : s.step table = .stopped .done s.heap := by
    unfold State.step
    rw [hs]
    rfl
  have hglobals : s.scope = Heap.globals := by
    have hfollows := h.follows hT
    rw [hstep] at hfollows
    generalize r.step = o at hfollows
    cases hfollows with
    | done _ globals _ => exact globals
  have hdepth : s.depth = 0 := by
    have hcontrol := hB.control
    rwa [hs] at hcontrol
  refine ⟨hstep, ?_⟩
  unfold State.withSequel State.start
  rw [hs, hglobals, hdepth]
  rfl

/-- When the last statement of a program has ended, the program with its sequel stands still. -/
theorem State.withSequel_of_sequence_nil (hs : s.control = .ended .normal (.sequence [] .done))
    (q : Program) :
    s.step table = .moved (s.finish .normal .done) ∧
      s.withSequel q = (s.finish .normal .done).withSequel q := by
  constructor
  · unfold State.step
    rw [hs]
    rfl
  · unfold State.withSequel
    rw [hs]
    rfl

/-- When a program has ended, it has bound no global names without `B`; and with a sequel it takes
the same steps, and then begins the sequel. -/
theorem Related.run_withSequel (h : Related K P left s r) (hT : Meant K table)
    (hT' : Meant K table') (hB : s.Confined B) (q : Program) {n : Nat} {w w' : World} {heap : Heap}
    (hrun : s.run table n w = (w', heap, some .done)) :
    heap.Confined B ∧ ∃ m, ∀ fuel,
      (s.withSequel q).run table' (m + fuel) w = (State.start heap q).run table' fuel w' := by
  -- by induction on the steps of the program without its sequel
  induction n generalizing P s r w with
  | zero => cases hrun
  | succ n ih =>
    have hprogress := hB.step fun span x hx d hd ↦ h.isLocal hT hx hd
    have hfollows := h.follows hT
    generalize ho : s.step table = o at hprogress hfollows
    generalize r.step = o' at hfollows
    have arrives {s' : State} {r' : Lexical.State} {w₁ : World}
        (h' : Arrives K table P left s s' r') (hB' : s'.Confined B)
        (hrun : s'.run table n w₁ = (w', heap, some .done)) :
        heap.Confined B ∧ ∃ m, ∀ fuel,
          (s'.withSequel q).run table' (m + fuel) w₁ = (State.start heap q).run table' fuel w' := by
      cases h' with
      | on _ _ related => exact ih related hB' hrun
      | stuck _ _ _ hs _ _ => exact absurd (congrArg (·.2.2) hrun) (State.run_of_stuck hs n w₁).2
    by_cases hend : s.AtEnd
    · rcases h.of_atEnd hend with hs | hs
      · obtain ⟨hstop, hsequel⟩ := h.withSequel_of_done hT hB hs q
        rw [State.run, hstop] at hrun
        obtain ⟨-, rfl, -⟩ := hrun
        exact ⟨hB.heap, 0, fun fuel ↦ by rw [Nat.zero_add, hsequel]⟩
      · obtain ⟨hmove, hsequel⟩ := State.withSequel_of_sequence_nil hs q
        rw [State.run_of_moved hmove] at hrun
        obtain rfl := ho.symm.trans hmove
        cases hfollows with
        | moved h' =>
          rw [hsequel]
          exact arrives h' hprogress hrun
    · -- the tables agree on what is read here, and so the two take the same step
      have hstep := s.step_withSequel (q := q) table' hend
      have htable : s.step table = s.step table' := State.step_congr fun span x hx ↦ by
        obtain ⟨cx, L, hK, -⟩ := h.of_reference? hx
        exact (hT _ hK).trans (hT' _ hK).symm
      rw [← htable, ho] at hstep
      cases hfollows with
      | moved h' =>
        rw [State.run_of_moved ho] at hrun
        obtain ⟨hheap, m, hm⟩ := arrives h' hprogress hrun
        refine ⟨hheap, m + 1, fun fuel ↦ ?_⟩
        rw [Nat.add_right_comm, State.run_of_moved hstep]
        exact hm fuel
      | waiting h' =>
        rw [State.run_of_waiting ho] at hrun
        obtain ⟨hheap, m, hm⟩ := arrives (h' _) (hprogress _) hrun
        refine ⟨hheap, m + 1, fun fuel ↦ ?_⟩
        rw [Nat.add_right_comm, State.run_of_waiting hstep]
        exact hm fuel
      | done hs _ _ => exact absurd (.inl ⟨_, hs⟩) hend

/-! ### Sessions -/

/-- After any history: if a source ends well and the next one is accepted, then a single source, in
which the two stand on either side of a line break, prints and reads the same, comes to the same
verdict and leaves the same session; and so for any number of steps that are left for the second. -/
theorem Session.History.run_append {s s₁ s₂ : Session} {known : List Reference}
    {places : List Place} {left : List (FrameId × String)} (h : s.History known places left)
    {text text' : String} {n : Nat} {w w₁ : World} (hrun : s.run n w text = (.ok, w₁, s₁))
    {q : Program} (hload : s₁.load text' = (s₂, .ok q)) :
    ∃ m, ∀ fuel, s.run (m + fuel) w (text ++ "\n" ++ text') = s₁.run fuel w₁ text' := by
  obtain ⟨s', p, heap, hload', rfl, hrun'⟩ := of_run_ok hrun
  obtain ⟨hs, P, m, -, H⟩ := h.heapRel
  obtain ⟨hs', related⟩ := hs.start H hload'
  obtain ⟨hs₂, -⟩ := (hs'.withHeap heap).load hload
  have hheap' : s'.heap = s.heap := (congrArg (·.1.heap) hload').symm.trans (heap_load s text)
  have hheap₂ : s₂.heap = heap := (congrArg (·.1.heap) hload).symm.trans (heap_load _ text')
  have hB : (State.start s'.heap p).Confined fun x ↦ x ∈ s.globalNames ∨ x ∈ p.binds := by
    refine ⟨⟨?_, fun x hx ↦ .inl ?_⟩, fun _ x hx ↦ .inr hx, rfl⟩
    · change 0 < s'.heap.frames.size
      rw [hheap', H.size]
      exact Nat.succ_pos _
    · change ((s'.heap.frame 0).get? x).isSome at hx
      rw [hheap'] at hx
      exact Table.mem_names.2 hx
  obtain ⟨hB', m, hm⟩ := related.run_withSequel hs'.lookup
    (fun r hr ↦ hs₂.lookup r (List.mem_append_right _ hr)) hB q hrun'
  have happend := load_append hload' hload fun x hx ↦ hB'.bound x (Table.mem_names.1 hx)
  refine ⟨m, fun fuel ↦ ?_⟩
  have hruns : (State.start s.heap (p ++ q)).run s₂.distances (m + fuel) w =
      (State.start s₂.heap q).run s₂.distances fuel w₁ := by
    rw [hheap₂, ← hheap']
    exact hm fuel
  rw [run_of_load happend, run_of_load hload, ← hruns]

/-- A variable of one source is read in a block of the next one. -/
theorem Session.History.run_append_block :
    ∃ n w w₁ s₁ s₂ q, Session.new.run n w "var x;" = (.ok, w₁, s₁) ∧
      s₁.load "\x7b var y = x; print y; \x7d" = (s₂, .ok q) ∧
      ∃ m, ∀ fuel, Session.new.run (m + fuel) w
        ("var x;" ++ "\n" ++ "\x7b var y = x; print y; \x7d") =
          s₁.run fuel w₁ "\x7b var y = x; print y; \x7d" := by
  have hfirst : Session.new.load "var x;" =
      (⟨"var x;\n", [], Session.new.heap⟩, .ok [.varDecl ⟨0, 6⟩ "x" none]) :=
    Session.load_of_read Session.globalNames_new (by decide +kernel) rfl rfl rfl
  have hrun (w : World) : Session.new.run 6 w "var x;" =
      (.ok, w, ⟨"var x;\n", [],
        ⟨#[[("clock", .native .clock), ("input", .native .input), ("x", .nil)]], #[], 0, 0⟩⟩) :=
    Session.run_of_load hfirst 6 w
  have hnames : Session.globalNames ⟨"var x;\n", [],
      ⟨#[[("clock", .native .clock), ("input", .native .input), ("x", .nil)]], #[], 0, 0⟩⟩ =
        ["clock", "input", "x"] :=
    Table.names_eq (by decide +kernel) (by decide +kernel)
  have hload : Session.load ⟨"var x;\n", [],
        ⟨#[[("clock", .native .clock), ("input", .native .input), ("x", .nil)]], #[], 0, 0⟩⟩
        "\x7b var y = x; print y; \x7d" =
      (⟨"var x;\n\x7b var y = x; print y; \x7d\n", [(⟨26, 27⟩, 0)],
        ⟨#[[("clock", .native .clock), ("input", .native .input), ("x", .nil)]], #[], 0, 0⟩⟩,
        .ok [.block ⟨7, 30⟩ [.varDecl ⟨9, 19⟩ "y" (some (.var ⟨17, 18⟩ "x")),
          .print ⟨20, 28⟩ (.var ⟨26, 27⟩ "y")]]) :=
    Session.load_of_read hnames (by decide +kernel) rfl rfl rfl
  exact ⟨6, .ofInput [] none fun _ ↦ 0, _, _, _, _, hrun _, hload,
    Session.History.run_append .new (hrun _) hload⟩

end LoxLang
