import LoxLang.Program.Equality
import LoxLang.Proofs.Depth
import LoxLang.Proofs.Direct.Agreement
import LoxLang.Proofs.Direct.Restoration
import LoxLang.Proofs.Stops

/-!
# Calls

Scope and depth of an interpreter between two sources are those of the beginning, whatever became
of the sources before, and while a program runs the depth is the number of function bodies that are
being executed. A call is refused for its depth if and only if it would execute a body beyond the
limit (`Interpreter.Reached.restores_and_counts`).
-/

namespace LoxLang.Direct.Interpreter

/-- A source that is not left by an anomaly is left in the scope and at the depth in which it
began. -/
theorem run_restores {i i' : Interpreter} {n : Nat} {w w' : World} {text : String}
    {verdict : Verdict} (hrun : i.run n w text = some (verdict, w', i'))
    (hverdict : ∀ a, verdict ≠ .broken a) : i'.scope = i.scope ∧ i'.depth = i.depth := by
  unfold run at hrun
  rcases hload : i.session.load text with ⟨s, faults | p⟩
  · rw [hload] at hrun
    cases hrun
    exact ⟨rfl, rfl⟩
  · simp only [hload] at hrun
    cases hexit : program s.distances n p ⟨i.scope, i.depth, s.heap, w⟩ with
    | finished result σ =>
      rw [hexit] at hrun
      cases hrun
      exact program_restores s.distances n p _ _ _ hexit
    | broken a σ =>
      rw [hexit] at hrun
      cases hrun
      exact absurd rfl (hverdict a)
    | unfinished =>
      rw [hexit] at hrun
      cases hrun

/-- Between two sources the scope is the global one, and no function body is being executed. -/
theorem Reached.idle {i : Interpreter} (h : i.Reached) :
    i.scope = Heap.globals ∧ i.depth = 0 := by
  induction h with
  | new => exact ⟨rfl, rfl⟩
  | ran _ hrun hverdict ih =>
    obtain ⟨hscope, hdepth⟩ := run_restores hrun hverdict
    exact ⟨hscope.trans ih.1, hdepth.trans ih.2⟩

/-- However a statement, an expression or a call finishes, the scope and the depth are what they
were; so an interpreter begins each source in the global scope and at depth zero, and it comes to
what the session comes to. While a program runs the depth is the number of function bodies that are
being executed, never more than the limit. The fault of calls that are nested too deep comes up
exactly where a function, a method or a class with an initializer is called at the limit and
accepts its arguments, and it is charged to that call. -/
theorem Reached.restores_and_counts {i : Interpreter} (h : i.Reached) :
    (∀ table n, (∀ e, (evaluate table n e).Restores) ∧
      (∀ stmt, (execute table n stmt).Restores) ∧
      ∀ span callee arguments, (invoke (execute table n) span callee arguments).Restores) ∧
    i.scope = Heap.globals ∧ i.depth = 0 ∧
    (∀ n w text,
      (∀ verdict w' i', i.run n w text = some (verdict, w', i') →
        ∃ m, ∀ k, i.session.run (m + k) w text = (verdict, w', i'.session)) ∧
      (i.run n w text = none → (i.session.run n w text).1 = .unfinished)) ∧
    ∀ text s p places t places', i.session.load text = (s, .ok p) →
      (State.start s.heap p).Reaches s.distances places t places' →
      (∀ bodies, t.control.bodies? = some bodies → t.depth = bodies) ∧ t.depth ≤ callLimit ∧
      ∀ limit span,
        (∃ t', t.Steps s.distances t' ∧
          t'.control = .stuck (.fault ⟨.callsTooDeep limit, span⟩)) ↔
        limit = callLimit ∧ t.depth = callLimit ∧ ∃ callee arguments,
          t.calling? = some (span, callee, arguments) ∧
          callee.accepts arguments.length = .ok () ∧ callee.hasBody = true := by
  obtain ⟨hscope, hdepth⟩ := h.idle
  refine ⟨fun table n ↦ ⟨evaluate_restores table n, execute_restores table n,
    invoke_restores table n⟩, hscope, hdepth, run_agrees hscope hdepth, ?_⟩
  intro text s p places t places' _ hreaches
  have hcounts := hreaches.counts
  exact ⟨hcounts.bodies, hcounts.limit, fun limit span ↦ State.tooDeep_iff hcounts.limit⟩

/-- A function that fails in a block of its body, and its call in a block. -/
def failing : String := "fun f() \x7b \x7b return -nil; \x7d \x7d \x7b f(); \x7d"

/-- What the call leaves: frames for the call and the two blocks, which bind nothing. -/
def failed : Interpreter where
  session :=
    { source := failing ++ "\n"
      distances := []
      heap :=
        { frames := #[[("clock", .native .clock), ("input", .native .input),
            ("f", .function 0 ⟨.mk ⟨0, 28⟩ "f" [] [.block ⟨10, 26⟩
              [.returns ⟨12, 24⟩ (some (.unary ⟨19, 23⟩ .negate (.literal ⟨20, 23⟩ .nil)))]],
              Heap.globals, false⟩)], [], [], []]
          objects := #[], nextFunction := 1, nextClass := 0 } }
  scope := Heap.globals
  depth := 0

/-- A function is stopped in a block of its body, called in a block; the next source calls it again
and is not too deep. -/
theorem Reached.restores_and_counts_stopped :
    ∃ n w s p t places,
      Interpreter.new.run n w failing =
        some (.failed [⟨.unsupportedOperand "-" "nil", ⟨19, 23⟩⟩], w, failed) ∧
      failed.scope = Heap.globals ∧ failed.depth = 0 ∧
      failed.session.load "f();" = (s, .ok p) ∧
      (State.start s.heap p).Reaches s.distances [] t places ∧
      t.calling?.isSome ∧ t.depth = 0 ∧
      ¬ ∃ t', t.Steps s.distances t' ∧
        t'.control = .stuck (.fault ⟨.callsTooDeep callLimit, ⟨38, 41⟩⟩) := by
  have hfirst : Session.new.load failing = (⟨failing ++ "\n", [], Session.new.heap⟩,
      .ok [.funDecl (.mk ⟨0, 28⟩ "f" [] [.block ⟨10, 26⟩
          [.returns ⟨12, 24⟩ (some (.unary ⟨19, 23⟩ .negate (.literal ⟨20, 23⟩ .nil)))]]),
        .block ⟨29, 37⟩ [.expression ⟨31, 35⟩ (.call ⟨31, 34⟩ (.var ⟨31, 32⟩ "f") [])]]) :=
    Session.load_of_read Session.globalNames_new (by decide +kernel) rfl rfl rfl
  have hrun (w : World) : Interpreter.new.run 12 w failing =
      some (.failed [⟨.unsupportedOperand "-" "nil", ⟨19, 23⟩⟩], w, failed) := by
    have hsession : Interpreter.new.session.load failing = _ := hfirst
    unfold run
    rw [hsession]
    rfl
  have hnames : failed.session.globalNames = ["clock", "f", "input"] :=
    Table.names_eq (by decide +kernel) (by decide +kernel)
  have hload : failed.session.load "f();" =
      ({ failed.session with source := failing ++ "\n" ++ "f();" ++ "\n" },
        .ok [.expression ⟨38, 42⟩ (.call ⟨38, 41⟩ (.var ⟨38, 39⟩ "f") [])]) :=
    Session.load_of_read hnames (by decide +kernel) rfl rfl rfl
  obtain ⟨t, places, hreaches, hcalling, hdepth⟩ : ∃ t places,
      (State.start failed.session.heap
        [.expression ⟨38, 42⟩ (.call ⟨38, 41⟩ (.var ⟨38, 39⟩ "f") [])]).Reaches [] [] t places ∧
      t.calling?.isSome ∧ t.depth = 0 :=
    ⟨_, _, State.Reaches.refl |>.step (.moved rfl) |>.step (.moved rfl) |>.step (.moved rfl)
      |>.step (.moved rfl), rfl, rfl⟩
  let w : World := .ofInput [] none fun _ ↦ 0
  have hreached : failed.Reached := by
    refine .ran .new (hrun w) fun a h ↦ ?_
    cases h
  obtain ⟨-, hscope, hidle, -, hcalls⟩ := Reached.restores_and_counts hreached
  refine ⟨12, w, _, _, t, places, hrun w, hscope, hidle, hload, hreaches, hcalling, hdepth, ?_⟩
  intro hdeep
  obtain ⟨-, hlimit, -⟩ := ((hcalls _ _ _ _ _ _ hload hreaches).2.2 _ _).1 hdeep
  rw [hdepth] at hlimit
  cases hlimit

end LoxLang.Direct.Interpreter
