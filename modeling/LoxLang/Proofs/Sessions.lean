import LoxLang.Proofs.Layers.Known

/-!
# Sessions over several sources

A session is given sources one after another, each for at most so many steps. It ends in one state
(`Session.replay`), and each source has an outcome (`Session.outcomes`). What a source leaves of its
text and of its distances does not depend on how its program runs.
-/

namespace LoxLang

/-- The names of a table are those of its entries, put in their order. -/
theorem Table.names_eq {t : Table} {names : List String} (hperm : (t.map (·.1)).Perm names)
    (hnames : names.Pairwise (· ≤ ·)) : t.names = names := by
  have hsorted : t.names.Pairwise (· ≤ ·) := by
    refine (List.pairwise_mergeSort (fun x y z hxy hyz ↦ ?_) (fun x y ↦ ?_) _).imp of_decide_eq_true
    · exact decide_eq_true (String.le_trans (of_decide_eq_true hxy) (of_decide_eq_true hyz))
    · simp [String.le_total]
  exact List.Perm.eq_of_pairwise (fun _ _ _ _ ↦ String.le_antisymm) hsorted hnames
    ((List.mergeSort_perm _ _).trans hperm)

namespace Session

/-- Runs sources one after another, each for at most so many steps. -/
def replay (w : World) (s : Session) : List (Nat × String) → World × Session
  | [] => (w, s)
  | (fuel, text) :: rest => replay (s.run fuel w text).2.1 (s.run fuel w text).2.2 rest

/-- The verdict on each of several sources, and the world after it. -/
def outcomes (w : World) (s : Session) : List (Nat × String) → List (Verdict × World)
  | [] => []
  | (fuel, text) :: rest =>
    ((s.run fuel w text).1, (s.run fuel w text).2.1) ::
      outcomes (s.run fuel w text).2.1 (s.run fuel w text).2.2 rest

/-- The programs that sources are read as, also those that are refused for their names. -/
def programs (w : World) (s : Session) : List (Nat × String) → List Program
  | [] => []
  | (fuel, text) :: rest =>
    (Program.read text s.source.utf8ByteSize).toOption.toList ++
      programs (s.run fuel w text).2.1 (s.run fuel w text).2.2 rest

/-- The functions that are given are bound in a session without sources. -/
theorem globalNames_new : new.globalNames = ["clock", "input"] :=
  Table.names_eq (by decide +kernel) (by decide +kernel)

/-- A source is accepted if it is read as a program, and that program has no faults. -/
theorem load_of_read {s s' : Session} {text : String} {p : Program} {names : List String}
    (hnames : s.globalNames = names) (hread : Program.read text s.source.utf8ByteSize = .ok p)
    (htable : (p.distances names).map (·.reverse ++ s.distances) = .ok s'.distances)
    (hsource : s'.source = s.source ++ text ++ "\n") (hheap : s'.heap = s.heap) :
    s.load text = (s', .ok p) := by
  obtain ⟨source, distances, heap⟩ := s'
  obtain ⟨rfl, rfl⟩ : source = s.source ++ text ++ "\n" ∧ heap = s.heap := ⟨hsource, hheap⟩
  have hnames' : Session.globalNames { s with source := s.source ++ text ++ "\n" } = names := hnames
  simp only [load, hread, hnames']
  cases hp : p.distances names with
  | error faults =>
    rw [hp] at htable
    cases htable
  | ok table =>
    rw [hp] at htable
    cases htable
    rfl

/-- A source that is not read as a program is refused for the faults that were found in it. -/
theorem load_of_read_error {s : Session} {text : String} {faults : List Fault}
    (hread : Program.read text s.source.utf8ByteSize = .error faults) :
    s.load text = ({ s with source := s.source ++ text ++ "\n" }, .error faults) := by
  simp only [load, hread]

/-- An accepted source is run as its program is. -/
theorem run_of_load {s s' : Session} {text : String} {p : Program}
    (h : s.load text = (s', .ok p)) (n : Nat) (w : World) :
    s.run n w text =
      let (w, heap, ending) := (State.start s'.heap p).run s'.distances n w
      (verdict ending, w, { s' with heap }) := by
  unfold run
  rw [h]

/-- A source that ends well was accepted, and its program ran to its end. -/
theorem of_run_ok {s s' : Session} {n : Nat} {w w' : World} {text : String}
    (h : s.run n w text = (.ok, w', s')) :
    ∃ s₁ p heap, s.load text = (s₁, .ok p) ∧ s' = { s₁ with heap } ∧
      (State.start s₁.heap p).run s₁.distances n w = (w', heap, some .done) := by
  rcases hload : s.load text with ⟨s₁, faults | p⟩
  · unfold run at h
    rw [hload] at h
    cases h
  · rw [run_of_load hload] at h
    rcases hrun : (State.start s₁.heap p).run s₁.distances n w with ⟨w₁, heap, ending⟩
    simp only [hrun] at h
    obtain ⟨hverdict, rfl, rfl⟩ : verdict ending = .ok ∧ w₁ = w' ∧ { s₁ with heap } = s' := by
      simpa using h
    refine ⟨s₁, p, heap, rfl, rfl, ?_⟩
    rcases ending with - | (- | (f | a)) <;> first | exact hrun | cases hverdict

variable (w : World) (s : Session) (fuel : Nat) (text : String)

/-- Running the program of a source changes the heap alone. -/
theorem run_eq_withHeap : ∃ heap, (s.run fuel w text).2.2 = { (s.load text).1 with heap } := by
  unfold run
  rcases s.load text with ⟨s', faults | p⟩
  · exact ⟨s'.heap, rfl⟩
  · exact ⟨_, rfl⟩

@[simp] theorem source_run : (s.run fuel w text).2.2.source = s.source ++ text ++ "\n" := by
  obtain ⟨heap, hrun⟩ := run_eq_withHeap w s fuel text
  rw [hrun]
  exact source_load s text

@[simp] theorem distances_run : (s.run fuel w text).2.2.distances = (s.load text).1.distances := by
  obtain ⟨heap, hrun⟩ := run_eq_withHeap w s fuel text
  rw [hrun]

theorem utf8ByteSize_source_run :
    (s.run fuel w text).2.2.source.utf8ByteSize =
      s.source.utf8ByteSize + text.utf8ByteSize + 1 := by
  rw [source_run, ← source_load, utf8ByteSize_source_load]

theorem outcomes_append (before after : List (Nat × String)) :
    s.outcomes w (before ++ after) =
      s.outcomes w before ++ (s.replay w before).2.outcomes (s.replay w before).1 after := by
  induction before generalizing w s with
  | nil => rfl
  | cons source rest ih => exact congrArg (_ :: ·) (ih _ _)

end Session

end LoxLang
