import LoxLang.Program.Equality
import LoxLang.Proofs.Runs
import LoxLang.Proofs.Sessions

/-!
# Output that is refused

A world whose output has a limit is compared with the same world without one (`World.withLimit`).
A run goes through the same states in both, until it prints a line that is refused; there it stops
(`State.CutShort`), in the state in which the value of the print has been evaluated and nothing has
been done with it. Nothing on the way from the print out to the session changes the heap or goes on
with the program. So what is refused only truncates a session (`Session.truncated`).
-/

namespace LoxLang

namespace World

/-! ### Limits -/

/-- The same world, with another limit on its output. -/
def withLimit (w : World) (limit : Option Nat) : World := { w with limit }

/-- What goes with a world goes with the same world with another limit. -/
def limiting {α : Type} (limit : Option Nat) : World × α → World × α :=
  Prod.map (·.withLimit limit) id

/-- A line can be written whole: its own line breaks and the one after it are below the limit. -/
def HasRoom (w : World) (limit : Option Nat) (text : String) : Prop :=
  ∀ l ∈ limit, w.lines + text.toList.count '\n' < l

variable {w : World} {limit : Option Nat} {text : String} {r : Request}

theorem withLimit_limit (h : w.limit = limit) : w.withLimit limit = w := by
  subst h
  rfl

/-- A world can print as long as it has not reached its limit. -/
theorem isFull_withLimit : (w.withLimit limit).isFull = false ↔ ∀ l ∈ limit, w.lines < l := by
  cases limit with
  | none => simp [isFull, withLimit]
  | some l =>
    show decide (l ≤ w.lines) = false ↔ _
    simp

/-- A line is refused as a whole, or only the line break after its text is, or it is written. -/
theorem writeLine_cases (w : World) (text : String) :
    w.isFull = true ∧ w.writeLine text = (false, w) ∨
      (w.print text).isFull = true ∧ w.writeLine text = (false, w.print text) ∨
      w.writeLine text = (true, (w.print text).print "\n") := by
  unfold writeLine
  cases hbefore : w.isFull && !text.isEmpty with
  | true => exact .inl ⟨((Bool.and_eq_true _ _).mp hbefore).1, rfl⟩
  | false =>
    cases hafter : (w.print text).isFull with
    | true => exact .inr (.inl ⟨rfl, by simp [hafter]⟩)
    | false => exact .inr (.inr (by simp [hafter]))

/-- What a line that is written does to a world does not depend on the limit. -/
theorem HasRoom.writeLine (h : w.HasRoom limit text) :
    (w.withLimit limit).writeLine text = (true, ((w.print text).print "\n").withLimit limit) := by
  have hbefore : (w.withLimit limit).isFull = false :=
    isFull_withLimit.2 fun l hl ↦ Nat.lt_of_le_of_lt (Nat.le_add_right _ _) (h l hl)
  have hafter : ((w.withLimit limit).print text).isFull = false :=
    (isFull_withLimit (w := w.print text)).2 h
  rcases writeLine_cases (w.withLimit limit) text with ⟨hfull, -⟩ | ⟨hfull, -⟩ | hwritten
  · exact absurd (hbefore.symm.trans hfull) Bool.false_ne_true
  · exact absurd (hafter.symm.trans hfull) Bool.false_ne_true
  · exact hwritten

/-- A line for which there is no room is refused, and then the world is full. -/
theorem writeLine_of_not_hasRoom (h : ¬ w.HasRoom limit text) :
    ((w.withLimit limit).writeLine text).1 = false ∧
      ((w.withLimit limit).writeLine text).2.isFull = true := by
  have hafter : ((w.withLimit limit).print text).isFull = true := by
    rw [← Bool.not_eq_false]
    exact mt (isFull_withLimit (w := w.print text)).1 h
  unfold World.writeLine
  split
  · rename_i hbefore
    exact ⟨rfl, ((Bool.and_eq_true _ _).mp hbefore).1⟩
  · simp [hafter]

/-- In a full world every line is refused. -/
theorem writeLine_of_isFull (h : w.isFull = true) (text : String) :
    (w.writeLine text).1 = false := by
  have hroom : ¬ w.HasRoom w.limit text := fun hroom ↦ by
    have hbelow : (w.withLimit w.limit).isFull = false :=
      isFull_withLimit.2 fun l hl ↦ Nat.lt_of_le_of_lt (Nat.le_add_right _ _) (hroom l hl)
    exact Bool.false_ne_true (hbelow.symm.trans h)
  exact (writeLine_of_not_hasRoom hroom).1

/-! ### Requests -/

/-- The request is not for a line without room. -/
def Grants (w : World) (limit : Option Nat) : Request → Prop
  | .writeLine text => w.HasRoom limit text
  | .readLine | .readClock => True

/-- What is read does not depend on the limit, and reading prints nothing. -/
theorem readLine_withLimit (w : World) (limit : Option Nat) :
    (w.withLimit limit).readLine = (w.readLine.1, w.readLine.2.withLimit limit) := by
  obtain ⟨input, _, _, _, _, _⟩ := w
  cases input <;> rfl

theorem readLine_snd (w : World) :
    w.readLine.2.limit = w.limit ∧ w.readLine.2.lines = w.lines := by
  obtain ⟨input, _, _, _, _, _⟩ := w
  cases input <;> exact ⟨rfl, rfl⟩

/-- A request that is granted is answered as if there were no limit. -/
theorem Grants.answer (h : w.Grants limit r) : ∃ (reply : r.Reply) (w' : World),
    ∀ l, l = none ∨ l = limit → (w.withLimit l).answer r = (reply, w'.withLimit l) := by
  cases r with
  | writeLine text =>
    refine ⟨true, (w.print text).print "\n", fun l hl ↦ HasRoom.writeLine ?_⟩
    rcases hl with rfl | rfl
    · exact fun _ hl ↦ absurd hl (Option.not_mem_none _)
    · exact h
  | readLine => exact ⟨w.readLine.1, w.readLine.2, fun l _ ↦ readLine_withLimit w l⟩
  | readClock => exact ⟨w.clock w.readings, { w with readings := w.readings + 1 }, fun _ _ ↦ rfl⟩

theorem limit_writeLine (w : World) (text : String) : (w.writeLine text).2.limit = w.limit := by
  rcases writeLine_cases w text with ⟨-, h⟩ | ⟨-, h⟩ | h <;> rw [h] <;> rfl

theorem lines_le_writeLine (w : World) (text : String) : w.lines ≤ (w.writeLine text).2.lines := by
  rcases writeLine_cases w text with ⟨-, h⟩ | ⟨-, h⟩ | h
  · exact h ▸ Nat.le_refl _
  · exact h ▸ Nat.le_add_right _ _
  · exact h ▸ Nat.le_trans (Nat.le_add_right _ _) (Nat.le_add_right _ _)

/-- An answer leaves the limit alone. -/
theorem limit_answer : (w.answer r).2.limit = w.limit := by
  cases r with
  | writeLine text => exact limit_writeLine w text
  | readLine => exact w.readLine_snd.1
  | readClock => rfl

/-- An answer takes back no line that was printed. -/
theorem lines_le_answer : w.lines ≤ (w.answer r).2.lines := by
  cases r with
  | writeLine text => exact lines_le_writeLine w text
  | readLine => exact Nat.le_of_eq w.readLine_snd.2.symm
  | readClock => exact Nat.le_refl _

end World

namespace State

variable {table : Distances} {s : State} {text : String}

/-! ### Prints -/

/-- Only a print asks for a line to be written. -/
theorem of_writeLine {resume : Bool → State}
    (h : s.step table = .waiting (.writeLine text) resume) :
    ∃ v span next, s.control = .value v (.print span next) ∧ text = v.display := by
  rcases s.step_reads_or table with hreads | ⟨v, span, next, hs⟩ | hs | ⟨t, hs⟩
  · rw [h] at hreads
    exact hreads.elim
  · rw [State.step, hs] at h
    obtain ⟨⟩ := h
    exact ⟨v, span, next, hs, rfl⟩
  · rw [State.step, hs] at h
    cases h
  · rw [State.step, hs] at h
    cases h

/-- A print goes on if its line is written, and stops with a fault if not. -/
theorem step_print (table : Distances) {v : Value} {span : Span} {next : AfterStmt}
    (hs : s.control = .value v (.print span next)) : ∃ resume : Bool → State,
      s.step table = .waiting (.writeLine v.display) resume ∧
        resume true = s.finish .normal next ∧
        resume false = s.fault span (.unwritable standardOutput) := by
  unfold State.step
  rw [hs]
  exact ⟨_, rfl, rfl, rfl⟩

/-! ### Traces -/

/-- The states that a run goes through, each with the world around it. -/
def trace (table : Distances) : Nat → World → State → List (World × State)
  | 0, w, s => [(w, s)]
  | n + 1, w, s =>
    (w, s) ::
      match s.step table with
      | .moved s' => trace table n w s'
      | .waiting request resume =>
        trace table n (w.answer request).2 (resume (w.answer request).1)
      | .stopped _ _ => []

/-- A run only prints more. -/
theorem lines_le_run (n : Nat) (w : World) (s : State) : w.lines ≤ (s.run table n w).1.lines := by
  induction n generalizing w s with
  | zero => exact Nat.le_refl _
  | succ n ih =>
    cases ho : s.step table with
    | moved s' =>
      rw [run_of_moved ho]
      exact ih w s'
    | waiting request resume =>
      rw [run_of_waiting ho]
      exact Nat.le_trans World.lines_le_answer (ih _ _)
    | stopped e h => simp only [run, ho, Nat.le_refl]

/-- A run leaves the limit alone. -/
theorem limit_run (n : Nat) (w : World) (s : State) : (s.run table n w).1.limit = w.limit := by
  induction n generalizing w s with
  | zero => rfl
  | succ n ih =>
    cases ho : s.step table with
    | moved s' =>
      rw [run_of_moved ho]
      exact ih w s'
    | waiting request resume =>
      rw [run_of_waiting ho]
      exact (ih _ _).trans World.limit_answer
    | stopped e h =>
      rw [run, ho]

/-- A run takes back no line that was printed. -/
theorem lines_le_of_mem_trace {n : Nat} {w w' : World} {s s' : State}
    (h : (w', s') ∈ s.trace table n w) : w.lines ≤ w'.lines := by
  induction n generalizing w s with
  | zero =>
    obtain ⟨rfl, -⟩ := Prod.mk.inj (List.mem_singleton.1 h)
    exact Nat.le_refl _
  | succ n ih =>
    rcases List.mem_cons.1 h with h | h
    · obtain ⟨rfl, -⟩ := Prod.mk.inj h
      exact Nat.le_refl _
    · cases ho : s.step table with
      | moved s₁ =>
        rw [ho] at h
        exact ih h
      | waiting request resume =>
        rw [ho] at h
        exact Nat.le_trans World.lines_le_answer (ih h)
      | stopped e heap =>
        rw [ho] at h
        cases h

/-- Nothing comes after a state that is stuck. -/
theorem trace_fault (n : Nat) (w : World) (s : State) (span : Span) (cause : Cause) :
    (s.fault span cause).trace table n w = [(w, s.fault span cause)] := by
  cases n <;> rfl

/-- With and without the limit, the next step leads to the same state, in the same world. -/
structure Advances (table : Distances) (limit : Option Nat) (w : World) (s : State) (w' : World)
    (s' : State) : Prop where
  trace (l : Option Nat) (hl : l = none ∨ l = limit) (n : Nat) :
    s.trace table (n + 1) (w.withLimit l) = (w.withLimit l, s) :: s'.trace table n (w'.withLimit l)
  run (l : Option Nat) (hl : l = none ∨ l = limit) (n : Nat) :
    s.run table (n + 1) (w.withLimit l) = s'.run table n (w'.withLimit l)

variable {limit : Option Nat} {w : World}

/-- A step that asks nothing is the same under every limit. -/
theorem Advances.moved {s' : State} (h : s.step table = .moved s') :
    s.Advances table limit w w s' where
  trace l _ n := by rw [State.trace, h]
  run l _ n := run_of_moved h n _

/-- A step is the same under every limit if the request is answered alike. -/
theorem Advances.waiting {request : Request} {resume : request.Reply → State}
    (h : s.step table = .waiting request resume) {reply : request.Reply} {w' : World}
    (hanswer : ∀ l, l = none ∨ l = limit →
      (w.withLimit l).answer request = (reply, w'.withLimit l)) :
    s.Advances table limit w w' (resume reply) where
  trace l hl n := by
    rw [State.trace, h]
    simp only [hanswer l hl]
  run l hl n := by rw [run_of_waiting h, hanswer l hl]

/-- What can come next: nothing, the same with and without the limit, or a print that the limit
refuses. -/
inductive Prospect (table : Distances) (limit : Option Nat) (w : World) (s : State) : Prop
  | stops (ending : Ending) (heap : Heap) (hstep : s.step table = .stopped ending heap)
  | advances (w' : World) (s' : State) (h : s.Advances table limit w w' s')
  | prints (v : Value) (span : Span) (next : AfterStmt)
      (hs : s.control = .value v (.print span next)) (hfull : ¬ w.HasRoom limit v.display)

/-- Whatever the program does next, it is the same under the limit, or it is a refused print. -/
theorem prospect (table : Distances) (limit : Option Nat) (w : World) (s : State) :
    s.Prospect table limit w := by
  cases hstep : s.step table with
  | moved s' => exact .advances w s' (.moved hstep)
  | waiting request resume =>
    by_cases hgrants : w.Grants limit request
    · obtain ⟨reply, w', hanswer⟩ := hgrants.answer
      exact .advances w' (resume reply) (.waiting hstep hanswer)
    · cases request with
      | writeLine text =>
        obtain ⟨v, span, next, hs, rfl⟩ := of_writeLine hstep
        exact .prints v span next hs hgrants
      | readLine | readClock => exact absurd trivial hgrants
  | stopped ending heap => exact .stops ending heap hstep

/-- Without a limit a print goes on. -/
theorem Advances.print {v : Value} {span : Span} {next : AfterStmt}
    (hs : s.control = .value v (.print span next)) :
    s.Advances table none w ((w.print v.display).print "\n") (s.finish .normal next) := by
  obtain ⟨resume, hstep, htrue, -⟩ := step_print table hs
  rw [← htrue]
  refine .waiting hstep fun l hl ↦ World.HasRoom.writeLine fun l' hl' ↦ ?_
  rw [hl.elim id id] at hl'
  cases hl'

/-! ### Runs -/

/-- The limit makes no difference to the run. -/
structure Unhindered (table : Distances) (limit : Option Nat) (n : Nat) (w : World) (s : State) :
    Prop where
  trace : s.trace table n (w.withLimit limit) =
    (s.trace table n (w.withLimit none)).map (World.limiting limit)
  run : s.run table n (w.withLimit limit) =
    World.limiting limit (s.run table n (w.withLimit none))

end State

/-- A print that a run comes to: its value has been evaluated, and nothing has been written. -/
structure Printing where
  /-- How many steps come before it. -/
  index : Nat
  /-- The world and the state at that moment. -/
  world : World
  state : State
  /-- What is to be printed, where the statement stands and what comes after it. -/
  value : Value
  span : Span
  next : AfterStmt

namespace Printing

/-- The print is one that the trace comes to and goes beyond, as it is at most so long. -/
structure IsIn (P : Printing) (states : List (World × State)) (n : Nat) : Prop where
  before : P.index < n
  arrives : states[P.index]? = some (P.world, P.state)
  prints : P.state.control = .value P.value (.print P.span P.next)

/-- What comes of the line, if there is this limit. -/
def written (P : Printing) (limit : Option Nat) : Bool × World :=
  (P.world.withLimit limit).writeLine P.value.display

/-- The fault of the print if its line is refused. -/
def fault (P : Printing) : Fault := ⟨.unwritable standardOutput, P.span⟩

/-- The run stops at the print if there is this limit, and nothing is written any more. The first
of the traces is without the limit, the other one is with it. -/
structure Refused (P : Printing) (limit : Option Nat) (n : Nat)
    (states states' : List (World × State)) : Prop where
  isIn : P.IsIn states n
  refused : (P.written limit).1 = false
  closed (text : String) : ((P.written limit).2.writeLine text).1 = false
  trace : states' = (states.take (P.index + 1)).map (World.limiting limit) ++
    [((P.written limit).2, P.state.fault P.span (.unwritable standardOutput))]

/-- A print that is refused after some steps is refused with one more step before them. -/
theorem Refused.cons {P : Printing} {limit : Option Nat} {n : Nat}
    {states states' : List (World × State)} (h : P.Refused limit n states states')
    (first : World × State) : Refused { P with index := P.index + 1 } limit (n + 1)
      (first :: states) (World.limiting limit first :: states') where
  isIn := ⟨Nat.succ_lt_succ h.isIn.before, h.isIn.arrives, h.isIn.prints⟩
  refused := h.refused
  closed := h.closed
  trace := congrArg (World.limiting limit first :: ·) h.trace

end Printing

namespace State

variable {table : Distances} {limit : Option Nat} {n : Nat} {w w' : World} {s s' : State}
  {P : Printing}

/-- With the limit the run stops at the print, and leaves the heap as it was there. -/
structure CutShort (table : Distances) (limit : Option Nat) (n : Nat) (w : World) (s : State)
    (P : Printing) : Prop where
  refused : P.Refused limit n (s.trace table n (w.withLimit none))
    (s.trace table n (w.withLimit limit))
  run (m : Nat) (hm : P.index + 1 < m) : s.run table m (w.withLimit limit) =
    ((P.written limit).2, P.state.heap, some (.stuck (.fault P.fault)))

/-- A run is unhindered if it is so after its first step. -/
theorem Unhindered.of_advances (h : s.Advances table limit w w' s')
    (h' : s'.Unhindered table limit n w') : s.Unhindered table limit (n + 1) w where
  trace := by
    rw [h.trace _ (.inr rfl), h.trace _ (.inl rfl), h'.trace]
    rfl
  run := by rw [h.run _ (.inr rfl), h.run _ (.inl rfl), h'.run]

/-- A run is cut short if it is so after its first step. -/
theorem CutShort.of_advances (h : s.Advances table limit w w' s')
    (h' : s'.CutShort table limit n w' P) :
    s.CutShort table limit (n + 1) w { P with index := P.index + 1 } where
  refused := by
    rw [h.trace _ (.inr rfl), h.trace _ (.inl rfl)]
    exact h'.refused.cons (w.withLimit none, s)
  run
    | 0, hm => absurd hm (Nat.not_lt_zero _)
    | m + 1, hm => (h.run _ (.inr rfl) m).trans (h'.run m (Nat.lt_of_succ_lt_succ hm))

/-- A run that stops by itself is not hindered. -/
theorem Unhindered.of_stopped {ending : Ending} {heap : Heap}
    (h : s.step table = .stopped ending heap) : s.Unhindered table limit n w := by
  cases n with
  | zero => exact ⟨rfl, rfl⟩
  | succ n =>
    refine ⟨?_, ?_⟩
    · simp only [State.trace, h]
      rfl
    · simp only [State.run, h]
      rfl

/-- A print that is refused is where the run stops. -/
theorem CutShort.here {v : Value} {span : Span} {next : AfterStmt}
    (hs : s.control = .value v (.print span next)) (hfull : ¬ w.HasRoom limit v.display) :
    s.CutShort table limit (n + 1) w ⟨0, w.withLimit none, s, v, span, next⟩ := by
  obtain ⟨resume, hstep, -, hfalse⟩ := step_print table hs
  obtain ⟨hrefused, hclosed⟩ := World.writeLine_of_not_hasRoom hfull
  have hreply : resume ((w.withLimit limit).answer (.writeLine v.display)).1 =
      s.fault span (.unwritable standardOutput) := hrefused ▸ hfalse
  refine ⟨⟨⟨Nat.succ_pos n, rfl, hs⟩, hrefused, World.writeLine_of_isFull hclosed, ?_⟩, ?_⟩
  · simp only [State.trace, hstep]
    rw [hreply, trace_fault]
    rfl
  · intro m hm
    obtain ⟨m, rfl⟩ : ∃ k, m = k + 2 := Nat.exists_eq_add_of_le' hm
    rw [run_of_waiting hstep, hreply]
    rfl

/-- A run is not hindered by a limit, or it is cut short by a print that is refused. -/
theorem unhindered_or_cutShort (table : Distances) (limit : Option Nat) (n : Nat) (w : World)
    (s : State) : s.Unhindered table limit n w ∨ ∃ P, s.CutShort table limit n w P := by
  induction n generalizing w s with
  | zero => exact .inl ⟨rfl, rfl⟩
  | succ n ih =>
    cases s.prospect table limit w with
    | stops ending heap hstep => exact .inl (.of_stopped hstep)
    | advances w' s' h =>
      rcases ih w' s' with h' | ⟨P, h'⟩
      · exact .inl (.of_advances h h')
      · exact .inr ⟨_, .of_advances h h'⟩
    | prints v span next hs hfull => exact .inr ⟨_, .here hs hfull⟩

/-- If a print is refused, then more is printed without the limit than with it. -/
theorem lines_print {limit : Nat} {v : Value} (hfull : ¬ w.HasRoom (some limit) v.display) :
    limit < (((w.print v.display).print "\n").withLimit none).lines := by
  unfold World.HasRoom at hfull
  simp only [Option.mem_some_iff, forall_eq', Nat.not_lt] at hfull
  exact Nat.lt_succ_of_le hfull

/-- A limit does not hinder a run that prints no more than it allows. -/
theorem Unhindered.of_lines {limit : Nat}
    (h : (s.run table n (w.withLimit none)).1.lines ≤ limit) :
    s.Unhindered table (some limit) n w := by
  induction n generalizing w s with
  | zero => exact ⟨rfl, rfl⟩
  | succ n ih =>
    cases s.prospect table (some limit) w with
    | stops ending heap hstep => exact .of_stopped hstep
    | advances w' s' hs' =>
      rw [hs'.run _ (.inl rfl)] at h
      exact .of_advances hs' (ih h)
    | prints v span next hs hfull =>
      rw [(Advances.print hs).run _ (.inl rfl)] at h
      exact absurd (Nat.lt_of_lt_of_le (lines_print hfull) (lines_le_run n _ _))
        (Nat.not_lt.2 h)

/-- A run can be cut short at each of its prints, by the limit that it has reached there. -/
theorem CutShort.of_isIn {limit : Nat} (h : P.IsIn (s.trace table n (w.withLimit none)) n)
    (hlimit : P.world.lines = limit) : s.CutShort table (some limit) n w P := by
  induction n generalizing w s P with
  | zero => exact absurd h.before (Nat.not_lt_zero _)
  | succ n ih =>
    obtain ⟨index, world, state, value, span, next⟩ := P
    obtain ⟨hbefore, harrives, hprints⟩ := h
    cases index with
    | zero =>
      obtain ⟨rfl, rfl⟩ := Prod.mk.inj (Option.some.inj harrives)
      refine .here hprints fun hroom ↦ ?_
      exact absurd (hroom limit rfl) (hlimit ▸ Nat.not_lt.2 (Nat.le_add_right _ _))
    | succ k =>
      cases s.prospect table (some limit) w with
      | stops ending heap hstep =>
        simp only [State.trace, hstep] at harrives
        cases harrives
      | advances w' s' hs' =>
        rw [hs'.trace _ (.inl rfl)] at harrives
        exact .of_advances hs' (ih (P := ⟨k, world, state, value, span, next⟩)
          ⟨Nat.lt_of_succ_lt_succ hbefore, harrives, hprints⟩ hlimit)
      | prints v span' next' hs hfull =>
        -- what comes after this print has more lines than the limit
        rw [(Advances.print hs).trace _ (.inl rfl)] at harrives
        have hle := lines_le_of_mem_trace (List.mem_of_getElem? harrives)
        exact absurd (Nat.lt_of_lt_of_le (lines_print hfull) hle) (hlimit ▸ Nat.lt_irrefl _)

end State

/-! ### Sessions -/

namespace Session

/-- The states that the program of a source goes through, if it is accepted. -/
def trace (fuel : Nat) (w : World) (s : Session) (text : String) : List (World × State) :=
  match s.load text with
  | (_, .error _) => []
  | (s', .ok p) => (State.start s'.heap p).trace s'.distances fuel w

/-- The states that the programs of several sources go through. -/
def traces (w : World) (s : Session) : List (Nat × String) → List (List (World × State))
  | [] => []
  | (fuel, text) :: rest =>
    s.trace fuel w text :: traces (s.run fuel w text).2.1 (s.run fuel w text).2.2 rest

/-- The limit makes no difference to the sources: their programs go through the same states, and
print and leave the same. -/
structure Unhindered (limit : Option Nat) (w : World) (s : Session)
    (sources : List (Nat × String)) : Prop where
  traces : s.traces (w.withLimit limit) sources =
    (s.traces (w.withLimit none) sources).map (·.map (World.limiting limit))
  outcomes : s.outcomes (w.withLimit limit) sources =
    (s.outcomes (w.withLimit none) sources).map fun o ↦ (o.1, o.2.withLimit limit)
  replay : s.replay (w.withLimit limit) sources =
    World.limiting limit (s.replay (w.withLimit none) sources)

/-- With the limit the source is stopped at the print, by one fault, and leaves the session as it is
at that moment without the limit. -/
structure CutShort (limit : Option Nat) (fuel : Nat) (w : World) (s : Session) (text : String)
    (P : Printing) : Prop where
  refused : P.Refused limit fuel (s.trace fuel (w.withLimit none) text)
    (s.trace fuel (w.withLimit limit) text)
  run (n : Nat) (hn : P.index + 1 < n) : s.run n (w.withLimit limit) text =
    (.failed [P.fault], (P.written limit).2, { (s.load text).1 with heap := P.state.heap })

variable {limit : Option Nat} {fuel : Nat} {w w₁ : World} {s s' s₁ : Session} {text : String}
  {sources : List (Nat × String)} {p : Program} {v : Verdict}

theorem trace_of_load (h : s.load text = (s', .ok p)) (fuel : Nat) (w : World) :
    s.trace fuel w text = (State.start s'.heap p).trace s'.distances fuel w := by
  unfold trace
  rw [h]

/-- A source that is refused prints nothing. -/
theorem run_of_load_error {faults : List Fault} (h : s.load text = (s', .error faults))
    (fuel : Nat) (w : World) : s.run fuel w text = (.failed faults, w, s') := by
  unfold run
  rw [h]

theorem trace_of_load_error {faults : List Fault} (h : s.load text = (s', .error faults))
    (fuel : Nat) (w : World) : s.trace fuel w text = [] := by
  unfold trace
  rw [h]

/-- A source leaves the limit alone, and takes back no line that was printed. -/
theorem world_run (fuel : Nat) (w : World) (s : Session) (text : String) :
    (s.run fuel w text).2.1.limit = w.limit ∧ w.lines ≤ (s.run fuel w text).2.1.lines := by
  rcases hload : s.load text with ⟨s', faults | p⟩
  · rw [run_of_load_error hload]
    exact ⟨rfl, Nat.le_refl _⟩
  · rw [run_of_load hload]
    exact ⟨State.limit_run _ _ _, State.lines_le_run _ _ _⟩

/-- A session leaves the limit alone, and takes back no line that was printed. -/
theorem world_replay (w : World) (s : Session) (sources : List (Nat × String)) :
    (s.replay w sources).1.limit = w.limit ∧ w.lines ≤ (s.replay w sources).1.lines := by
  induction sources generalizing w s with
  | nil => exact ⟨rfl, Nat.le_refl _⟩
  | cons source sources ih =>
    obtain ⟨hlimit, hlines⟩ := world_run source.1 w s source.2
    obtain ⟨ihlimit, ihlines⟩ := ih (s.run source.1 w source.2).2.1 (s.run source.1 w source.2).2.2
    exact ⟨ihlimit.trans hlimit, Nat.le_trans hlines ihlines⟩

/-- The limit makes no difference to one source, which comes to the verdict, the world and the
session. -/
structure Passes (limit : Option Nat) (fuel : Nat) (w : World) (s : Session) (text : String)
    (v : Verdict) (w₁ : World) (s₁ : Session) : Prop where
  trace : s.trace fuel (w.withLimit limit) text =
    (s.trace fuel (w.withLimit none) text).map (World.limiting limit)
  run (l : Option Nat) (hl : l = none ∨ l = limit) :
    s.run fuel (w.withLimit l) text = (v, w₁.withLimit l, s₁)

/-- A source passes if the run of its program is unhindered. -/
theorem Passes.of_load (hload : s.load text = (s', .ok p))
    (h : (State.start s'.heap p).Unhindered s'.distances limit fuel w) :
    s.Passes limit fuel w text (s.run fuel (w.withLimit none) text).1
      (s.run fuel (w.withLimit none) text).2.1 (s.run fuel (w.withLimit none) text).2.2 := by
  refine ⟨?_, fun l hl ↦ ?_⟩
  · rw [trace_of_load hload, trace_of_load hload, h.trace]
  · rcases hl with rfl | rfl
    · have hlimit : (s.run fuel (w.withLimit none) text).2.1.limit = none :=
        (world_run fuel (w.withLimit none) s text).1
      rw [World.withLimit_limit hlimit]
    · rw [run_of_load hload, run_of_load hload, h.run]
      rfl

/-- A source that is refused prints nothing, so it passes. -/
theorem Passes.of_load_error {faults : List Fault} (hload : s.load text = (s', .error faults)) :
    s.Passes limit fuel w text (.failed faults) w s' := by
  refine ⟨?_, fun l _ ↦ run_of_load_error hload fuel _⟩
  rw [trace_of_load_error hload, trace_of_load_error hload]
  rfl

/-- A source is cut short if the run of its program is. -/
theorem CutShort.of_load {P : Printing} (hload : s.load text = (s', .ok p))
    (h : (State.start s'.heap p).CutShort s'.distances limit fuel w P) :
    s.CutShort limit fuel w text P := by
  refine ⟨?_, fun n hn ↦ ?_⟩
  · rw [trace_of_load hload, trace_of_load hload]
    exact h.refused
  · rw [run_of_load hload, h.run n hn, hload]
    rfl

/-- A source is not hindered by a limit, or it is cut short by a print that is refused. -/
theorem passes_or_cutShort (limit : Option Nat) (fuel : Nat) (w : World) (s : Session)
    (text : String) : (∃ v w₁ s₁, s.Passes limit fuel w text v w₁ s₁) ∨
      ∃ P, s.CutShort limit fuel w text P := by
  rcases hload : s.load text with ⟨s', faults | p⟩
  · exact .inl ⟨_, _, _, .of_load_error hload⟩
  · rcases State.unhindered_or_cutShort s'.distances limit fuel w (.start s'.heap p) with
      h | ⟨P, h⟩
    · exact .inl ⟨_, _, _, .of_load hload h⟩
    · exact .inr ⟨P, .of_load hload h⟩

/-- A source can be cut short at each of its prints, by the limit that it has reached there. -/
theorem CutShort.of_isIn {P : Printing} (h : P.IsIn (s.trace fuel (w.withLimit none) text) fuel) :
    w.lines ≤ P.world.lines ∧ s.CutShort (some P.world.lines) fuel w text P := by
  rcases hload : s.load text with ⟨s', faults | p⟩
  · have harrives := h.arrives
    rw [trace_of_load_error hload] at harrives
    cases harrives
  · rw [trace_of_load hload] at h
    exact ⟨State.lines_le_of_mem_trace (w := w.withLimit none) (List.mem_of_getElem? h.arrives),
      .of_load hload (.of_isIn h rfl)⟩

theorem Unhindered.nil : s.Unhindered limit w [] := ⟨rfl, rfl, rfl⟩

/-- A session is unhindered if its first source passes and the others are unhindered after it. -/
theorem Unhindered.cons (h : s.Passes limit fuel w text v w₁ s₁)
    (h' : s₁.Unhindered limit w₁ sources) : s.Unhindered limit w ((fuel, text) :: sources) := by
  have hnone := h.run none (.inl rfl)
  have hlimit := h.run limit (.inr rfl)
  refine ⟨?_, ?_, ?_⟩
  · simp only [Session.traces, hnone, hlimit, h.trace, h'.traces, List.map_cons]
  · simp only [Session.outcomes, hnone, hlimit, h'.outcomes, List.map_cons]
    rfl
  · simp only [Session.replay, hnone, hlimit, h'.replay]

/-- A limit does not hinder sources that print no more than it allows. -/
theorem Unhindered.of_lines {limit : Nat}
    (h : (s.replay (w.withLimit none) sources).1.lines ≤ limit) :
    s.Unhindered (some limit) w sources := by
  induction sources generalizing w s with
  | nil => exact .nil
  | cons source sources ih =>
    obtain ⟨fuel, text⟩ := source
    have hpasses : ∃ v w₁ s₁, s.Passes (some limit) fuel w text v w₁ s₁ := by
      rcases hload : s.load text with ⟨s', faults | p⟩
      · exact ⟨_, _, _, .of_load_error hload⟩
      · refine ⟨_, _, _, .of_load hload (.of_lines ?_)⟩
        have hrun := run_of_load hload fuel (w.withLimit none)
        have hle := (world_replay (s.run fuel (w.withLimit none) text).2.1
          (s.run fuel (w.withLimit none) text).2.2 sources).2
        rw [hrun] at hle
        exact Nat.le_trans hle (hrun ▸ h)
    obtain ⟨v, w₁, s₁, hpasses⟩ := hpasses
    refine .cons hpasses (ih ?_)
    rw [Session.replay, hpasses.run none (.inl rfl)] at h
    exact h

/-- Output that is refused from some line on only truncates a session. Whatever the limit, all
sources come out as without it; or there is one up to which they do, and which is stopped at a print
that is refused, by one fault, with nothing executed after it, in the session as it is without the
limit when the value of the print has been evaluated. And every print of a session can be the first
that is refused. -/
theorem truncated (w : World) (s : Session) :
    (∀ limit sources, s.Unhindered limit w sources ∨
      ∃ before fuel text after P, sources = before ++ (fuel, text) :: after ∧
        s.Unhindered limit w before ∧
        (s.replay (w.withLimit none) before).2.CutShort limit fuel
          (s.replay (w.withLimit none) before).1 text P) ∧
    ∀ before fuel text (P : Printing),
      P.IsIn ((s.replay (w.withLimit none) before).2.trace fuel
        (s.replay (w.withLimit none) before).1 text) fuel →
      ∃ limit, s.Unhindered limit w before ∧
        (s.replay (w.withLimit none) before).2.CutShort limit fuel
          (s.replay (w.withLimit none) before).1 text P := by
  constructor
  · intro limit sources
    induction sources generalizing w s with
    | nil => exact .inl .nil
    | cons source sources ih =>
      obtain ⟨fuel, text⟩ := source
      rcases passes_or_cutShort limit fuel w s text with ⟨v, w₁, s₁, hpasses⟩ | ⟨P, hcut⟩
      · rcases ih w₁ s₁ with h | ⟨before, fuel', text', after, P, rfl, hbefore, hcut⟩
        · exact .inl (.cons hpasses h)
        · refine .inr ⟨(fuel, text) :: before, fuel', text', after, P, rfl,
            .cons hpasses hbefore, ?_⟩
          rw [Session.replay, hpasses.run none (.inl rfl)]
          exact hcut
      · exact .inr ⟨[], fuel, text, sources, P, rfl, .nil, hcut.refused, hcut.run⟩
  · intro before fuel text P hP
    obtain ⟨hlimit, -⟩ := world_replay (w.withLimit none) s before
    obtain ⟨hlines, hcut⟩ := CutShort.of_isIn ((World.withLimit_limit hlimit).symm ▸ hP)
    exact ⟨some P.world.lines, .of_lines hlines, hcut⟩

/-- A program of one print is cut short at it. -/
theorem truncated_print : ∃ limit s p P,
    new.load "print nil;" = (s, .ok p) ∧ p = [.print P.span (.literal ⟨6, 9⟩ .nil)] ∧
      P.value.display = "nil" ∧
      new.CutShort limit 5 ((World.ofInput [] none fun _ ↦ 0).withLimit none) "print nil;" P := by
  have hload : new.load "print nil;" =
      (⟨"print nil;\n", [], new.heap⟩, .ok [.print ⟨0, 10⟩ (.literal ⟨6, 9⟩ .nil)]) :=
    Session.load_of_read Session.globalNames_new (by decide +kernel) rfl rfl rfl
  obtain ⟨P, hP, hspan, hvalue⟩ : ∃ P : Printing,
      P.IsIn (new.trace 5 ((World.ofInput [] none fun _ ↦ 0).withLimit none) "print nil;") 5 ∧
        P.span = ⟨0, 10⟩ ∧ P.value.display = "nil" := by
    rw [trace_of_load hload]
    exact ⟨⟨3, _, _, .nil, ⟨0, 10⟩, .sequence [] .done⟩, ⟨by decide, rfl, rfl⟩, rfl, rfl⟩
  obtain ⟨limit, -, hcut⟩ := (truncated (.ofInput [] none fun _ ↦ 0) new).2 [] 5 "print nil;" P hP
  exact ⟨limit, _, _, P, hload, by rw [hspan], hvalue, hcut⟩

end Session

end LoxLang
