import LoxLang.Program.Equality
import LoxLang.Proofs.Direct
import LoxLang.Proofs.Relocation.Steps
import LoxLang.Proofs.Relocation.Texts
import LoxLang.Proofs.Sessions

/-!
# Refused sources

A source that is refused leaves its text in the session and nothing else. The text moves all later
sources, and with them the places of their faults and the entries of the table of distances. But
what a program does depends on spans only through that table, in which the references of earlier
and of later sources have moved in the same way. So every other source comes to what it comes to
without the refused one (`Session.outcomes_insert`).
-/

namespace LoxLang

/-! ### Moved sessions -/

/-- The span after `k` more bytes at an offset. A span that begins before it stays. -/
def Span.insertAt (offset k : Nat) (s : Span) : Span := if s.start < offset then s else s.shift k

theorem Span.insertAt_of_lt {offset k : Nat} {s : Span} (h : s.start < offset) :
    s.insertAt offset k = s := if_pos h

theorem Span.insertAt_of_le {offset k : Nat} {s : Span} (h : offset ≤ s.start) :
    s.insertAt offset k = s.shift k := if_neg (Nat.not_lt.2 h)

/-- No two spans are moved to one place. -/
theorem Span.insertAt_injective (offset k : Nat) : Function.Injective (insertAt offset k) := by
  intro a b h
  by_cases ha : a.start < offset <;> by_cases hb : b.start < offset
  · rwa [insertAt_of_lt ha, insertAt_of_lt hb] at h
  · rw [insertAt_of_lt ha, insertAt_of_le (Nat.not_lt.1 hb)] at h
    rw [h, shift_start] at ha
    omega
  · rw [insertAt_of_le (Nat.not_lt.1 ha), insertAt_of_lt hb] at h
    rw [← h, shift_start] at hb
    omega
  · rw [insertAt_of_le (Nat.not_lt.1 ha), insertAt_of_le (Nat.not_lt.1 hb)] at h
    exact shift_injective k h

/-- The verdict with each fault at another place. -/
def Verdict.relocate (f : Span → Span) : Verdict → Verdict
  | .failed faults => .failed (faults.map (Fault.relocate f))
  | .broken a => .broken (a.relocate f)
  | v => v

namespace Session

theorem verdict_relocate (f : Span → Span) (ending : Option Ending) :
    verdict (ending.map (Ending.relocate f)) = (verdict ending).relocate f := by
  rcases ending with - | (- | (e | a)) <;> rfl

/-- The second session has the distances and the heap of the first, with each span replaced. Its
text is another one. -/
structure Relocated (f : Span → Span) (s s' : Session) : Prop where
  distances : s'.distances = s.distances.relocate f
  heap : s'.heap = s.heap.relocate f

/-- A source that is refused leaves its text. -/
theorem eq_of_load_error {s s' : Session} {text : String} {faults : List Fault}
    (h : s.load text = (s', .error faults)) :
    s' = { s with source := s.source ++ text ++ "\n" } := by
  dsimp only [load] at h
  split at h
  · exact (congrArg Prod.fst h).symm
  · split at h
    · exact (congrArg Prod.fst h).symm
    · cases h

/-- The text of a session only grows. -/
theorem utf8ByteSize_source_replay_le (w : World) (s : Session) (sources : List (Nat × String)) :
    s.source.utf8ByteSize ≤ (s.replay w sources).2.source.utf8ByteSize := by
  induction sources generalizing w s with
  | nil => exact Nat.le_refl _
  | cons source rest ih =>
    obtain ⟨n, text⟩ := source
    refine Nat.le_trans ?_ (ih (s.run n w text).2.1 (s.run n w text).2.2)
    rw [utf8ByteSize_source_run]
    omega

namespace Relocated

variable {f : Span → Span} {s s' : Session} {text : String}

theorem globalNames (h : Relocated f s s') : s'.globalNames = s.globalNames := by
  unfold Session.globalNames
  rw [h.heap, Heap.frame_relocate, Table.names_relocate]

/-- A source is taken in as the same program at its new place, or has the same faults there. -/
theorem load {k : Nat} (h : Relocated f s s')
    (hsize : s'.source.utf8ByteSize = s.source.utf8ByteSize + k)
    (hmoves : ∀ span : Span, s.source.utf8ByteSize ≤ span.start →
      span.start ≤ s.source.utf8ByteSize + text.utf8ByteSize → f span = span.shift k) :
    Relocated f (s.load text).1 (s'.load text).1 ∧
      (s'.load text).2 = Program.relocateResult f (s.load text).2 := by
  have hread : Program.read text s'.source.utf8ByteSize =
      Program.relocateResult f (Program.read text s.source.utf8ByteSize) := by
    rw [hsize]
    exact Program.read_shift fun span hlo hhi _ _ ↦ hmoves span hlo hhi
  unfold Session.load
  simp only [hread]
  cases Program.read text s.source.utf8ByteSize with
  | error faults => exact ⟨⟨h.distances, h.heap⟩, rfl⟩
  | ok p =>
    have hnames (s : Session) (source : String) :
      Session.globalNames { s with source } = s.globalNames := rfl
    simp only [Program.relocateResult, p.distances_relocate, hnames, h.globalNames]
    cases p.distances s.globalNames with
    | error faults => exact ⟨⟨h.distances, h.heap⟩, rfl⟩
    | ok table =>
      refine ⟨⟨?_, h.heap⟩, rfl⟩
      show (table.relocate f).reverse ++ s'.distances = Distances.relocate f (table.reverse ++ _)
      rw [h.distances]
      unfold Distances.relocate
      rw [List.map_append, List.map_reverse]

/-- A source that is run comes to the same, and its faults are at their new places. -/
theorem run (hf : Function.Injective f) {k : Nat} (h : Relocated f s s')
    (hsize : s'.source.utf8ByteSize = s.source.utf8ByteSize + k)
    (hmoves : ∀ span : Span, s.source.utf8ByteSize ≤ span.start →
      span.start ≤ s.source.utf8ByteSize + text.utf8ByteSize → f span = span.shift k)
    (n : Nat) (w : World) :
    (s'.run n w text).1 = (s.run n w text).1.relocate f ∧
      (s'.run n w text).2.1 = (s.run n w text).2.1 ∧
      Relocated f (s.run n w text).2.2 (s'.run n w text).2.2 := by
  obtain ⟨hloaded, hresult⟩ := h.load hsize hmoves
  rcases hload : s.load text with ⟨s₁, faults | p⟩ <;>
    rcases hload' : s'.load text with ⟨s₁', result⟩ <;>
    rw [hload, hload'] at hloaded hresult <;> subst hresult
  · unfold Session.run
    rw [hload, hload']
    exact ⟨rfl, rfl, hloaded⟩
  · have hrun := State.run_relocate (State.start s₁.heap p) hf s₁.distances n w
    have hstart : State.start s₁'.heap (p.relocate f) = (State.start s₁.heap p).relocate f := by
      rw [hloaded.heap]
      rfl
    have hdistances : s₁'.distances = s₁.distances.relocate f := hloaded.distances
    rw [run_of_load hload, run_of_load hload', hstart, hdistances, hrun]
    rcases (State.start s₁.heap p).run s₁.distances n w with ⟨w', heap, ending⟩
    exact ⟨verdict_relocate f ending, rfl, rfl, rfl⟩

variable {offset k : Nat}

/-- The sources of a session that has `k` more bytes at an earlier offset come to the same. -/
theorem outcomes (h : Relocated (Span.insertAt offset k) s s')
    (hsize : s'.source.utf8ByteSize = s.source.utf8ByteSize + k)
    (hoffset : offset ≤ s.source.utf8ByteSize) (w : World) (sources : List (Nat × String)) :
    s'.outcomes w sources = (s.outcomes w sources).map fun (verdict, w) ↦
      (verdict.relocate (Span.insertAt offset k), w) := by
  induction sources generalizing s s' w with
  | nil => rfl
  | cons source rest ih =>
    obtain ⟨n, text⟩ := source
    obtain ⟨hverdict, hworld, hrelocated⟩ := h.run (Span.insertAt_injective offset k) hsize
      (fun span hlo _ ↦ Span.insertAt_of_le (Nat.le_trans hoffset hlo)) n w
    have hsize' : (s'.run n w text).2.2.source.utf8ByteSize =
        (s.run n w text).2.2.source.utf8ByteSize + k := by
      rw [utf8ByteSize_source_run, utf8ByteSize_source_run, hsize]
      omega
    have hoffset' : offset ≤ (s.run n w text).2.2.source.utf8ByteSize := by
      rw [utf8ByteSize_source_run]
      omega
    rw [Session.outcomes, Session.outcomes, List.map_cons, hverdict, hworld,
      ih hrelocated hsize' hoffset']

/-- What is left of the sources before an offset stays where it is. -/
theorem replay (h : Relocated (Span.insertAt offset k) s s) {w w' : World}
    {sources : List (Nat × String)} (hreplay : s.replay w sources = (w', s'))
    (hoffset : s'.source.utf8ByteSize ≤ offset) :
    Relocated (Span.insertAt offset k) s' s' := by
  induction sources generalizing s w with
  | nil =>
    cases hreplay
    exact h
  | cons source rest ih =>
    obtain ⟨n, text⟩ := source
    change (s.run n w text).2.2.replay (s.run n w text).2.1 rest = _ at hreplay
    have hgrows := utf8ByteSize_source_replay_le (s.run n w text).2.1 (s.run n w text).2.2 rest
    rw [hreplay, utf8ByteSize_source_run] at hgrows
    have hstays (span : Span) (hspan : span.start ≤ s.source.utf8ByteSize + text.utf8ByteSize) :
        span.insertAt offset k = span.shift 0 :=
      Span.insertAt_of_lt (Nat.lt_of_lt_of_le (Nat.lt_succ_of_le hspan)
        (Nat.le_trans hgrows hoffset))
    obtain ⟨-, -, hrun⟩ := h.run (Span.insertAt_injective offset k) rfl
      (fun span _ hspan ↦ hstays span hspan) n w
    exact ih hrun hreplay

/-- No span is in the session before its sources. -/
theorem new (f : Span → Span) : Relocated f .new .new where
  distances := rfl
  heap := by
    have hempty : Heap.empty.relocate f = .empty := by
      simp [Heap.relocate, Heap.empty, Table.relocate]
    unfold Session.new
    nth_rewrite 1 [← hempty]
    exact List.foldl_hom (Heap.relocate f) fun h native ↦
      h.define_relocate f Heap.globals native.name (.native native)

end Relocated

/-! ### The refused source -/

/-- Wherever a source is refused in a session, nothing is printed or read, and nothing changes but
the text of the session: not the variables, not the distances, nor the scope and the depth in which
an interpreter begins its sources. Every other source has the outcome that it has in the session
without the refused one, except that faults at or after the place of the refused source stand
further on, by the length of that source and its line break. -/
theorem outcomes_insert {w w₁ : World} {s₁ s₂ : Session} {before : List (Nat × String)}
    {r : String} {faults : List Fault} (hbefore : new.replay w before = (w₁, s₁))
    (hr : s₁.load r = (s₂, .error faults)) (n : Nat) (after : List (Nat × String)) :
    s₂ = { s₁ with source := s₁.source ++ r ++ "\n" } ∧
    s₁.run n w₁ r = (.failed faults, w₁, s₂) ∧
    (∀ i : Direct.Interpreter, i.session = s₁ →
      i.run n w₁ r = some (.failed faults, w₁, { i with session := s₂ })) ∧
    new.outcomes w (before ++ after) = new.outcomes w before ++ s₁.outcomes w₁ after ∧
    new.outcomes w (before ++ (n, r) :: after) =
      new.outcomes w before ++ (.failed faults, w₁) ::
        (s₁.outcomes w₁ after).map fun (verdict, w) ↦
          (verdict.relocate (.insertAt s₁.source.utf8ByteSize (r.utf8ByteSize + 1)), w) := by
  have hs₂ : s₂ = { s₁ with source := s₁.source ++ r ++ "\n" } := eq_of_load_error hr
  have hrun : s₁.run n w₁ r = (.failed faults, w₁, s₂) := by
    unfold run
    rw [hr]
  have hstays : Relocated (.insertAt s₁.source.utf8ByteSize (r.utf8ByteSize + 1)) s₁ s₁ :=
    (Relocated.new _).replay hbefore (Nat.le_refl _)
  have hmoved : Relocated (.insertAt s₁.source.utf8ByteSize (r.utf8ByteSize + 1)) s₁ s₂ := by
    rw [hs₂]
    exact ⟨hstays.distances, hstays.heap⟩
  have hsize : s₂.source.utf8ByteSize = s₁.source.utf8ByteSize + (r.utf8ByteSize + 1) := by
    have hgrows := utf8ByteSize_source_load s₁ r
    rw [hr] at hgrows
    exact hgrows
  refine ⟨hs₂, hrun, fun i hi ↦ ?_, ?_, ?_⟩
  · unfold Direct.Interpreter.run
    rw [hi, hr]
  · rw [outcomes_append, hbefore]
  · have hafter := hmoved.outcomes hsize (Nat.le_refl _) w₁ after
    rw [outcomes_append, hbefore, outcomes, hrun, hafter]

/-- A function that reads its parameter. -/
def negating : String := "fun f(x) \x7b return -x; \x7d"

/-- What the function leaves: its value, and the distance of its parameter. -/
def negated : Session where
  source := negating ++ "\n"
  distances := [(⟨19, 20⟩, 0)]
  heap :=
    { frames := #[[("clock", .native .clock), ("input", .native .input),
        ("f", .function 0 ⟨.mk ⟨0, 23⟩ "f" [⟨"x", ⟨6, 7⟩⟩]
          [.returns ⟨11, 21⟩ (some (.unary ⟨18, 20⟩ .negate (.var ⟨19, 20⟩ "x")))],
          Heap.globals, false⟩)]]
      objects := #[], nextFunction := 1, nextClass := 0 }

/-- What a call of the function leaves, which fails: the value of its parameter. -/
def misapplied : Session where
  source := negating ++ "\n" ++ "f(nil);" ++ "\n"
  distances := negated.distances
  heap := { negated.heap with frames := negated.heap.frames.push [("x", .nil)] }

/-- The function that is declared before the parenthesis still finds its parameter, and fails where
it stood; a later name that is not defined stands two bytes further on. -/
theorem outcomes_insert_parenthesis : ∃ w s₂ faults,
    new.replay w [(30, negating)] = (w, negated) ∧
    negated.load ")" = (s₂, .error faults) ∧
    new.outcomes w [(30, negating), (30, "f(nil);"), (30, "y;")] =
      [(.ok, w), (.failed [⟨.unsupportedOperand "-" "nil", ⟨18, 20⟩⟩], w),
        (.failed [⟨.notDefined "y", ⟨32, 33⟩⟩], w)] ∧
    new.outcomes w [(30, negating), (30, ")"), (30, "f(nil);"), (30, "y;")] =
      [(.ok, w), (.failed faults, w), (.failed [⟨.unsupportedOperand "-" "nil", ⟨18, 20⟩⟩], w),
        (.failed [⟨.notDefined "y", ⟨34, 35⟩⟩], w)] := by
  let w : World := .ofInput [] none fun _ ↦ 0
  have hdeclares : new.load negating = (⟨negating ++ "\n", [(⟨19, 20⟩, 0)], new.heap⟩,
      .ok [.funDecl (.mk ⟨0, 23⟩ "f" [⟨"x", ⟨6, 7⟩⟩]
        [.returns ⟨11, 21⟩ (some (.unary ⟨18, 20⟩ .negate (.var ⟨19, 20⟩ "x")))])]) :=
    load_of_read globalNames_new (by decide +kernel) rfl rfl rfl
  have hdeclared : new.run 30 w negating = (.ok, w, negated) := run_of_load hdeclares 30 w
  have hbefore : new.replay w [(30, negating)] = (w, negated) := by
    rw [replay, hdeclared]
    rfl
  have hfirst : new.outcomes w [(30, negating)] = [(.ok, w)] := by
    rw [outcomes, hdeclared]
    rfl
  have hload : negated.load ")" = ({ negated with source := negating ++ "\n" ++ ")" ++ "\n" },
      .error [⟨.unexpectedToken ")" ["expression"], ⟨24, 25⟩⟩]) :=
    load_of_read_error (by decide +kernel)
  have hnames : negated.globalNames = ["clock", "f", "input"] :=
    Table.names_eq (by decide +kernel) (by decide +kernel)
  have hcalls : negated.load "f(nil);" =
      ({ negated with source := negating ++ "\n" ++ "f(nil);" ++ "\n" },
        .ok [.expression ⟨24, 31⟩ (.call ⟨24, 30⟩ (.var ⟨24, 25⟩ "f") [.literal ⟨26, 29⟩ .nil])]) :=
    load_of_read hnames (by decide +kernel) rfl rfl rfl
  have hcalled : negated.run 30 w "f(nil);" =
      (.failed [⟨.unsupportedOperand "-" "nil", ⟨18, 20⟩⟩], w, misapplied) :=
    run_of_load hcalls 30 w
  have hnames' : misapplied.globalNames = ["clock", "f", "input"] := hnames
  have hreads : misapplied.load "y;" =
      ({ misapplied with source := misapplied.source ++ "y;" ++ "\n" },
        .ok [.expression ⟨32, 34⟩ (.var ⟨32, 33⟩ "y")]) :=
    load_of_read hnames' (by decide +kernel) rfl rfl rfl
  have hafter : negated.outcomes w [(30, "f(nil);"), (30, "y;")] =
      [(.failed [⟨.unsupportedOperand "-" "nil", ⟨18, 20⟩⟩], w),
        (.failed [⟨.notDefined "y", ⟨32, 33⟩⟩], w)] := by
    rw [outcomes, hcalled, outcomes, run_of_load hreads]
    rfl
  obtain ⟨-, -, -, hwithout, hwith⟩ :=
    outcomes_insert hbefore hload 30 [(30, "f(nil);"), (30, "y;")]
  rw [hfirst, hafter] at hwithout hwith
  exact ⟨w, _, _, hbefore, hload, hwithout, hwith⟩

end Session

end LoxLang
