import LoxLang.Proofs.Alike.Steps
import LoxLang.Proofs.Moments

/-!
# Runs of alike programs

Alike programs that are both accepted come out alike (`Moment.Reached.execute_alike`): whatever the
one has come to after some number of steps, the other comes to after some number of steps, and these
numbers are the same if no loop is written out. This holds of the machine with lexical environments,
where the two programs have joint environments, and is carried over to the machine with distances,
where nothing is the same: the frames, the distances and the table are all different.
-/

namespace LoxLang

namespace Lexical

variable {ω : Leeway} {s s' : State}

section Run

variable {request : Request} {resume : request.Reply → State} {ending : Ending} {m : Memory}

theorem State.run_of_moved (h : s.step = .moved s') (n : Nat) (w : World) :
    s.run (n + 1) w = s'.run n w := by
  rw [run, h]

theorem State.run_of_waiting (h : s.step = .waiting request resume) (n : Nat) (w : World) :
    s.run (n + 1) w = (resume (w.answer request).1).run n (w.answer request).2 := by
  rw [run, h]

theorem State.run_of_stopped (h : s.step = .stopped ending m) (n : Nat) (w : World) :
    s.run (n + 1) w = (w, m, some ending) := by
  rw [run, h]

end Run

/-- After the two runs the world is the same, and the programs have ended alike, or not ended. -/
structure RunAlike (ω : Leeway) (o o' : World × Memory × Option Ending) : Prop where
  world : o'.1 = o.1
  ending : Option.Rel (EndingAlike ω) o.2.2 o'.2.2

/-- What the first state comes to, the second one comes to in time. -/
theorem StateAlike.run (h : StateAlike ω s s') (n : Nat) (w : World) :
    ∃ n', RunAlike ω (s.run n w) (s'.run n' w) ∧ (ω.loops ∨ n' = n) := by
  induction n generalizing s s' w with
  | zero => exact ⟨0, ⟨rfl, .none⟩, .inr rfl⟩
  | succ n ih =>
    have catches {s s' : State} (h : Catches ω s s') (w : World) :
        ∃ n', RunAlike ω (s.run n w) (s'.run n' w) ∧ (ω.loops ∨ n' = n) := by
      induction h with
      | now h => exact ih h w
      | later loops hstep _ ih =>
        obtain ⟨n', hrun, -⟩ := ih
        exact ⟨n' + 1, (State.run_of_moved hstep n' w).symm ▸ hrun, .inl loops⟩
    have hstep := h.step
    generalize ho : s.step = o at hstep
    generalize ho' : s'.step = o' at hstep
    cases hstep with
    | moved h =>
      obtain ⟨n', hrun, hn⟩ := catches h w
      refine ⟨n' + 1, ?_, hn.imp_right (congrArg (· + 1))⟩
      rwa [State.run_of_moved ho, State.run_of_moved ho']
    | waiting h =>
      obtain ⟨n', hrun, hn⟩ := ih (h _) _
      refine ⟨n' + 1, ?_, hn.imp_right (congrArg (· + 1))⟩
      rwa [State.run_of_waiting ho, State.run_of_waiting ho']
    | stopped h =>
      refine ⟨n + 1, ?_, .inr rfl⟩
      rw [State.run_of_stopped ho, State.run_of_stopped ho']
      exact ⟨rfl, .some h⟩

/-- What the second state comes to, the first one comes to in time. -/
theorem StateAlike.run_back (h : StateAlike ω s s') (n' : Nat) (w : World) :
    ∃ n, RunAlike ω (s.run n w) (s'.run n' w) := by
  induction n' using Nat.strongRecOn generalizing s s' w with
  | ind n' ih =>
    cases n' with
    | zero => exact ⟨0, rfl, .none⟩
    | succ n' =>
      -- on its way to the first state the second one does nothing that could be seen
      have catches {s s' : State} (h : Catches ω s s') (w : World) :
          ∀ k ≤ n', ∃ n, RunAlike ω (s.run n w) (s'.run k w) := by
        induction h with
        | now h => exact fun k hk ↦ ih k (Nat.lt_succ_of_le hk) h w
        | later _ hstep _ ih =>
          intro k hk
          cases k with
          | zero => exact ⟨0, rfl, .none⟩
          | succ k =>
            rw [State.run_of_moved hstep]
            exact ih k (Nat.le_of_succ_le hk)
      have hstep := h.step
      generalize ho : s.step = o at hstep
      generalize ho' : s'.step = o' at hstep
      cases hstep with
      | moved h =>
        obtain ⟨n, hrun⟩ := catches h w n' (Nat.le_refl _)
        refine ⟨n + 1, ?_⟩
        rwa [State.run_of_moved ho, State.run_of_moved ho']
      | waiting h =>
        obtain ⟨n, hrun⟩ := ih n' (Nat.lt_succ_self _) (h _) _
        refine ⟨n + 1, ?_⟩
        rwa [State.run_of_waiting ho, State.run_of_waiting ho']
      | stopped h =>
        refine ⟨1, ?_⟩
        rw [State.run_of_stopped ho, State.run_of_stopped ho']
        exact ⟨rfl, .some h⟩

/-- Alike programs begin alike. -/
theorem StateAlike.start {m m' : Memory} (H : MemoryAlike ω m m') {p p' : Program}
    (h : Stmt.AllAlike ω .top p p') : StateAlike ω (.start m p) (.start m' p') :=
  .mk (J := .top) H (.ended (r := true) .normal (.sequence h fun _ ↦ .done))

end Lexical

/-! ### Sessions -/

/-- How a program that is already read comes out in a session, after at most so many steps. -/
def Session.execute (fuel : Nat) (w : World) (s : Session) (p : Program) : Verdict × World :=
  match p.distances s.globalNames with
  | .error faults => (.failed faults, w)
  | .ok table =>
    let (w, _, ending) := (State.start s.heap p).run (table.reverse ++ s.distances) fuel w
    (verdict ending, w)

/-- A source comes out as the program that is read from it. -/
theorem Session.execute_of_read {s : Session} {text : String} {p : Program}
    (hread : Program.read text s.source.utf8ByteSize = .ok p) (fuel : Nat) (w : World) :
    s.execute fuel w p = ((s.run fuel w text).1, (s.run fuel w text).2.1) := by
  unfold execute run load
  simp only [hread]
  cases hd : p.distances s.globalNames with
  | error faults =>
    have hd' : p.distances (Session.globalNames { s with source := s.source ++ text ++ "\n" }) =
        .error faults := hd
    simp only [hd']
  | ok table =>
    have hd' : p.distances (Session.globalNames { s with source := s.source ++ text ++ "\n" }) =
        .ok table := hd
    simp only [hd']

/-- The verdicts are the same, except that a variable without a value has the name that it has in
each program. -/
inductive VerdictAlike (ω : Leeway) : Verdict → Verdict → Prop
  | refl (v : Verdict) : VerdictAlike ω v v
  | missingLocal {x x' : String} (h : ω.name x x') :
      VerdictAlike ω (.broken (.missingLocal x)) (.broken (.missingLocal x'))

/-- Runs that end alike have verdicts that are alike. -/
theorem VerdictAlike.of_ending {ω : Leeway} {e e' : Option Ending}
    (h : Option.Rel (Lexical.EndingAlike ω) e e') :
    VerdictAlike ω (Session.verdict e) (Session.verdict e') := by
  cases h with
  | none => exact .refl _
  | some h =>
    cases h with
    | done => exact .refl _
    | stuck ht =>
      cases ht with
      | refl t => exact .refl _
      | missingLocal h => exact .missingLocal h

section Sessions

variable {ω : Leeway} {s : Session} {places : List Place} {text : String} {p p' : Program}

/-- A program with a table of distances has no faults, and the table is made of its findings. -/
theorem Program.faults_of_distances {names : List String} {table : Distances}
    (h : p.distances names = .ok table) : (Finding.faults (p.findings names)).isEmpty = true ∧
      table = Finding.distances (p.findings names) := by
  unfold Program.distances at h
  simp only at h
  split at h
  · rename_i hfaults
    exact ⟨hfaults, (Except.ok.inj h).symm⟩
  · cases h

/-- The references start at different offsets of the source that comes next. -/
structure Session.Places (s : Session) (text : String) (refs : List Reference) : Prop where
  nodup : (refs.map (·.span.start)).Nodup
  range : ∀ r ∈ refs, s.source.utf8ByteSize ≤ r.span.start ∧
    r.span.start < s.source.utf8ByteSize + text.utf8ByteSize

/-- What is known of the places of references does not depend on their layers. -/
theorem Session.Places.of_sameSpans {refs refs' : List Reference} (h : s.Places text refs)
    (hspans : SameSpans refs refs') : s.Places text refs' := by
  have hstarts : (refs'.map (·.span.start)).Perm (refs.map (·.span.start)) := by
    have hmap := List.Perm.map Span.start hspans
    rwa [List.map_map, List.map_map] at hmap
  refine ⟨hstarts.nodup_iff.2 h.nodup, fun r hr ↦ ?_⟩
  obtain ⟨r₀, hr₀, hstart⟩ := List.mem_map.1 (hstarts.mem_iff.1 (List.mem_map_of_mem hr))
  exact hstart ▸ h.range r₀ hr₀

/-- A proper program that is accepted runs alike on both machines. -/
theorem Session.Knows.execute {known : List Reference} (h : s.Knows known) {P : Plan}
    {left : List (FrameId × String)} {m : Lexical.Memory}
    (heap : HeapRel (· ∈ known) P left s.heap m) (hp : Stmt.AllProper p)
    (hplaces : s.Places text p.references) {table : Distances}
    (htable : p.distances s.globalNames = .ok table) (fuel : Nat) (w : World) :
    s.execute fuel w p = (verdict ((Lexical.State.start m p).run fuel w).2.2,
      ((Lexical.State.start m p).run fuel w).1) := by
  obtain ⟨hfaults, rfl⟩ := Program.faults_of_distances htable
  have hsize := utf8ByteSize_source_load s text
  have hrange : ∀ r ∈ p.references, s.source.utf8ByteSize ≤ r.span.start ∧
      r.span.start < (s.load text).1.source.utf8ByteSize := by
    intro r hr
    obtain ⟨hge, hlt⟩ := hplaces.range r hr
    exact ⟨hge, by omega⟩
  obtain ⟨knows, fits⟩ := h.accept hp hplaces.nodup hrange (by omega) hfaults s.heap
  have related : Related (· ∈ p.references ++ known) P left (.start s.heap p) (.start m p) :=
    .start (heap.mono (fun _ ↦ List.mem_append_right _) fun _ ↦ id) fits
  obtain ⟨-, hw, hending, -⟩ := related.run knows.lookup fuel w
  unfold Session.execute
  rw [htable, hw, hending]

/-- How programs come out: the world is the same, and the verdicts are alike. -/
structure OutcomeAlike (ω : Leeway) (o o' : Verdict × World) : Prop where
  verdict : VerdictAlike ω o.1 o'.1
  world : o'.2 = o.2

/-- Runs that are alike have outcomes that are alike. -/
theorem OutcomeAlike.of_run {o o' : World × Lexical.Memory × Option Ending}
    (h : Lexical.RunAlike ω o o') :
    OutcomeAlike ω (Session.verdict o.2.2, o.1) (Session.verdict o'.2.2, o'.1) :=
  ⟨.of_ending h.ending, h.world⟩

/-- At any moment between two programs: if a program is read and accepted, and so is one that is
alike, then they come out alike. -/
theorem Moment.Reached.execute_alike (h : (Moment.idle s places).Reached)
    (hread : Program.read text s.source.utf8ByteSize = .ok p) (halike : Stmt.AllAlike ω .top p p')
    {table table' : Distances} (htable : p.distances s.globalNames = .ok table)
    (htable' : p'.distances s.globalNames = .ok table') :
    (∀ n w, ∃ n', OutcomeAlike ω (s.execute n w p) (s.execute n' w p') ∧ (ω.loops ∨ n' = n)) ∧
    ∀ n' w, ∃ n, OutcomeAlike ω (s.execute n w p) (s.execute n' w p') := by
  obtain ⟨known, -, hsound, -⟩ := h.sound
  cases hsound with
  | idle knows heap =>
    obtain ⟨m, heap, htidy⟩ := Lexical.Memory.exists_tidy heap
    have hstart : Lexical.StateAlike ω (.start m p) (.start m p') :=
      .start (.refl heap htidy) halike
    have hproper := Program.proper_of_read hread
    obtain ⟨hnodup, hrange⟩ := Program.of_read hread
    have hplaces : s.Places text p.references := ⟨hnodup, hrange⟩
    have hexecute (n : Nat) (w : World) := knows.execute heap hproper hplaces htable n w
    have hexecute' (n : Nat) (w : World) := knows.execute heap (halike.proper hproper)
      (hplaces.of_sameSpans (halike.spans [] [])) htable' n w
    refine ⟨fun n w ↦ ?_, fun n' w ↦ ?_⟩
    · obtain ⟨n', hrun, hn⟩ := hstart.run n w
      refine ⟨n', ?_, hn⟩
      rw [hexecute, hexecute']
      exact .of_run hrun
    · obtain ⟨n, hrun⟩ := hstart.run_back n' w
      refine ⟨n, ?_⟩
      rw [hexecute, hexecute']
      exact .of_run hrun

end Sessions

end LoxLang
