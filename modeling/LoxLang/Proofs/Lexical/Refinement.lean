import LoxLang.Proofs.Layers.Known
import LoxLang.Proofs.Lexical.Step

/-!
# Distances against lexical environments

A session of the machine with distances is set beside a session of the machine with lexical
environments, which is given the same programs. Source by source they print the same, read the
same, visit the same references in the same order and come to the same verdict, for any number of
steps that each source is given (`Lexical.transcript_eq`). So a program goes on for ever on the one
machine just if it does on the other, and an anomaly comes up at the same reference.
-/

namespace LoxLang

/-! ### Transcripts -/

/-- How a source came out. -/
structure Session.Entry where
  /-- The references whose variables were read or written, in order. -/
  visits : List (Span × String)
  /-- The world afterwards. -/
  world : World
  /-- The verdict on the source. -/
  verdict : Verdict

/-- The references whose variables a run of at most so many steps reads or writes, in order. -/
def State.visits (table : Distances) : Nat → World → State → List (Span × String)
  | 0, _, _ => []
  | fuel + 1, w, s =>
    s.reference?.toList ++
      match s.step table with
      | .moved s => visits table fuel w s
      | .waiting request resume =>
        let (reply, w) := w.answer request
        visits table fuel w (resume reply)
      | .stopped _ _ => []

/-- Runs sources one after another, each for at most so many steps. Of each source, the transcript
has the steps, the program or the reasons why it was refused, and how it came out. -/
def Session.transcript (w : World) (s : Session) :
    List (Nat × String) → List (Nat × Except (List Fault) Program × Entry)
  | [] => []
  | (fuel, text) :: rest =>
    let (verdict, w', s') := s.run fuel w text
    let visits :=
      match s.load text with
      | (_, .error _) => []
      | (s, .ok p) => (State.start s.heap p).visits s.distances fuel w
    (fuel, (s.load text).2, ⟨visits, w', verdict⟩) :: s'.transcript w' rest

namespace Lexical

/-- The reference whose variable the next step reads or writes. -/
def State.reference? (s : State) : Option (Span × String) :=
  match s.control with
  | .evaluate (.var span x) _ | .evaluate (.step span _ _ x) _ | .value _ (.assign span x _) =>
    some (span, x)
  | .evaluate (.this span) _ => some (span, "this")
  | .evaluate (.super span _) _ => some (span, "super")
  | _ => none

/-- The references whose variables a run of at most so many steps reads or writes, in order. -/
def State.visits : Nat → World → State → List (Span × String)
  | 0, _, _ => []
  | fuel + 1, w, s =>
    s.reference?.toList ++
      match s.step with
      | .moved s => visits fuel w s
      | .waiting request resume =>
        let (reply, w) := w.answer request
        visits fuel w (resume reply)
      | .stopped _ _ => []

/-- Runs programs one after another, each for at most so many steps. What was refused is not run. -/
def transcript (w : World) (m : Memory) :
    List (Nat × Except (List Fault) Program) → List Session.Entry
  | [] => []
  | (_, .error faults) :: rest => ⟨[], w, .failed faults⟩ :: transcript w m rest
  | (fuel, .ok p) :: rest =>
    let (w', m', ending) := (State.start m p).run fuel w
    ⟨(State.start m p).visits fuel w, w', Session.verdict ending⟩ :: transcript w' m' rest

end Lexical

/-! ### Runs -/

section Runs

variable {K : Reference → Prop} {table : Distances} {P : Plan} {left : List (FrameId × String)}
  {s : State} {r : Lexical.State}

/-- Related states are about to use the same reference, or neither is. -/
theorem Related.reference?_eq (h : Related K P left s r) : r.reference? = s.reference? := by
  obtain ⟨_, control⟩ := h
  unfold State.reference? Lexical.State.reference?
  generalize s.control = c at control ⊢
  generalize r.control = c' at control ⊢
  cases control with
  | execute | ended => rfl
  | @evaluate e => cases e <;> rfl
  | value _ next => cases next <;> rfl

/-- The same has happened on both sides, and both have the same memory. -/
def SameRun (K : Reference → Prop) (visits : List (Span × String))
    (visits' : List (Span × String)) (result : World × Heap × Option Ending)
    (result' : World × Lexical.Memory × Option Ending) : Prop :=
  visits' = visits ∧ result'.1 = result.1 ∧ result'.2.2 = result.2.2 ∧
    ∃ P missing, HeapRel K P missing result.2.1 result'.2.1

/-- States that are stuck stay so. -/
theorem SameRun.of_stuck {missing : List (FrameId × String)} {t : Trouble}
    (heap : HeapRel K P missing s.heap r.memory) (hs : s.control = .stuck t)
    (hr : r.control = .stuck t) (fuel : Nat) (w : World) :
    SameRun K (s.visits table fuel w) (r.visits fuel w) (s.run table fuel w) (r.run fuel w) := by
  cases fuel with
  | zero => exact ⟨rfl, rfl, rfl, P, missing, heap⟩
  | succ fuel =>
    unfold State.visits Lexical.State.visits State.run Lexical.State.run State.step
      Lexical.State.step State.reference? Lexical.State.reference?
    simp only [hs, hr]
    exact ⟨rfl, rfl, rfl, P, missing, heap⟩

/-- From the same point on, the two machines run alike. -/
theorem Related.run (h : Related K P left s r) (hT : Meant K table) (fuel : Nat) (w : World) :
    SameRun K (s.visits table fuel w) (r.visits fuel w) (s.run table fuel w) (r.run fuel w) := by
  induction fuel generalizing P s r w with
  | zero =>
    obtain ⟨H, _⟩ := h
    exact ⟨rfl, rfl, rfl, P, _, H.heap⟩
  | succ fuel ih =>
    have hreference := h.reference?_eq
    have arrives {s' : State} {r' : Lexical.State} (h' : Arrives K table P left s s' r')
        (w : World) : SameRun K (s'.visits table fuel w) (r'.visits fuel w)
          (s'.run table fuel w) (r'.run fuel w) := by
      cases h' with
      | on _ _ related => exact ih related w
      | stuck _ _ heap hs hr _ => exact .of_stuck heap hs hr fuel w
    have hfollows := h.follows hT
    unfold State.visits Lexical.State.visits State.run Lexical.State.run
    rw [hreference]
    generalize s.step table = o at hfollows ⊢
    generalize r.step = o' at hfollows ⊢
    cases hfollows with
    | moved h' =>
      obtain ⟨hvisits, hrest⟩ := arrives h' w
      exact ⟨congrArg (_ ++ ·) hvisits, hrest⟩
    | @waiting request resume resume' h' =>
      obtain ⟨hvisits, hrest⟩ := arrives (h' (w.answer request).1) (w.answer request).2
      exact ⟨congrArg (_ ++ ·) hvisits, hrest⟩
    | done _ _ heap => exact ⟨rfl, rfl, rfl, P, _, heap⟩

/-- The two machines begin a program alike. -/
theorem Related.start {missing : List (FrameId × String)} {h : Heap} {m : Lexical.Memory}
    (heap : HeapRel K P missing h m) {p : Program} (fits : FitsStmts K {} [] p) :
    Related K P missing (State.start h p) (Lexical.State.start m p) :=
  ⟨⟨.top, rfl, heap⟩, .ended .normal (.sequence fits fun _ ↦ .done rfl)⟩

end Runs

/-! ### Sessions -/

/-- A new session has the same memory as the other machine. -/
theorem HeapRel.new (K : Reference → Prop) :
    HeapRel K [] [] Session.new.heap Lexical.Memory.initial := by
  have empty : HeapRel K [] [] .empty
      { cells := #[], globals := fun _ ↦ none, objects := #[], nextFunction := 0,
        nextClass := 0 } :=
    { size := rfl, objects := rfl, nextFunction := rfl, nextClass := rfl
      globals := fun _ ↦ .none
      fields := fun _ _ ↦ .none
      locals := fun {f _ _} hc ↦ by cases f <;> cases hc
      unbound := fun {f _} hf _ ↦ by
        cases f with
        | zero => exact absurd rfl hf
        | succ f => rfl
      bound := fun {f _ _} hc ↦ by cases f <;> cases hc
      distinct := fun {f _ _ _ _} hc ↦ by cases f <;> cases hc
      this := fun {f _} hc ↦ by cases f <;> cases hc
      super := fun {f _} hc ↦ by cases f <;> cases hc
      ready := fun {f _ _} hc ↦ by cases f <;> cases hc }
  exact (empty.setGlobal (.native .clock)).setGlobal (.native .input)

/-- A program that is accepted begins alike on both machines. -/
theorem Session.Knows.start {s s' : Session} {known : List Reference} (hs : s.Knows known)
    {P : Plan} {missing : List (FrameId × String)} {m : Lexical.Memory}
    (heap : HeapRel (· ∈ known) P missing s.heap m) {text : String} {p : Program}
    (hload : s.load text = (s', .ok p)) :
    s'.Knows (p.references ++ known) ∧
      Related (· ∈ p.references ++ known) P missing (.start s'.heap p) (.start m p) := by
  obtain ⟨hs', fits⟩ := hs.load hload
  have hheap := heap_load s text
  rw [hload] at hheap
  refine ⟨hs', .start ?_ fits⟩
  rw [show s'.heap = s.heap from hheap]
  exact heap.mono (fun _ ↦ List.mem_append_right _) fun _ ↦ id

/-- Session by session, the two machines run alike. -/
theorem Session.Knows.runAlike {s : Session} {known : List Reference} (hs : s.Knows known)
    {P : Plan} {missing : List (FrameId × String)} {m : Lexical.Memory}
    (heap : HeapRel (· ∈ known) P missing s.heap m) (w : World) (sources : List (Nat × String)) :
    Lexical.transcript w m ((s.transcript w sources).map fun e ↦ (e.1, e.2.1)) =
      (s.transcript w sources).map (·.2.2) := by
  induction sources generalizing s known P missing m w with
  | nil => rfl
  | cons source rest ih =>
    obtain ⟨fuel, text⟩ := source
    unfold transcript Session.run
    rcases hload : s.load text with ⟨s', faults | p⟩
    · have hheap := heap_load s text
      rw [hload] at hheap
      simp only [List.map_cons, Lexical.transcript]
      rw [ih (hs.refuse hload) (hheap ▸ heap) w]
    · obtain ⟨hs', related⟩ := hs.start heap hload
      obtain ⟨hvisits, hw, hending, P', missing', heap'⟩ := related.run hs'.lookup fuel w
      simp only [List.map_cons, Lexical.transcript]
      rw [hvisits, hw, hending]
      congr 1
      exact ih (hs'.withHeap _) heap' _

/-- For all sources, each run for any number of steps, the machine with distances and the machine
with lexical environments visit the same references, leave the same world and come to the same
verdicts. -/
theorem Lexical.transcript_eq (w : World) (sources : List (Nat × String)) :
    Lexical.transcript w .initial
        ((Session.new.transcript w sources).map fun e ↦ (e.1, e.2.1)) =
      (Session.new.transcript w sources).map (·.2.2) :=
  Session.knows_new.runAlike (.new _) w sources

end LoxLang
