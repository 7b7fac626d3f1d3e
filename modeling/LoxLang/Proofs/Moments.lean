import LoxLang.Proofs.Frames
import Mathlib.Logic.Relation

/-!
# Moments of a session

A session lives through moments: between two programs it takes in sources, and while a program runs
it is in one state after another. One moment comes after another (`Moment.Later`) if the session can
get from the first to the second, through as many programs as there are in between.

At every moment that a session can reach, the machine with lexical environments has a partner for
what there is, and frames bind what they were opened for (`Moment.Reached.sound`). What was bound to
`this` or `super` at an earlier moment still is (`Moment.Later.keeps`).
-/

namespace LoxLang

/-- A point in the life of a session, with what opened the scope of each frame but the first. -/
inductive Moment where
  /-- No program runs. -/
  | idle (session : Session) (places : List Place)
  /-- A program of the session runs, and is in this state. -/
  | running (session : Session) (state : State) (places : List Place)

namespace Moment

/-- All that changes. -/
def heap : Moment → Heap
  | idle s _ => s.heap
  | running _ t _ => t.heap

/-- What opened the scope of each frame but the first. -/
def places : Moment → List Place
  | idle _ places => places
  | running _ _ places => places

/-- What may come next. -/
inductive Next : Moment → Moment → Prop
  | refuse {s s' : Session} {places : List Place} {text : String} {faults : List Fault}
      (hload : s.load text = (s', .error faults)) : Next (idle s places) (idle s' places)
  | accept {s s' : Session} {places : List Place} {text : String} {p : Program}
      (hload : s.load text = (s', .ok p)) :
      Next (idle s places) (running s' (.start s'.heap p) places)
  | step {s : Session} {t t' : State} {places : List Place} (hstep : t.Steps s.distances t') :
      Next (running s t places) (running s t' (places ++ t.opened t'))
  /-- The program has ended, or no more steps are made. -/
  | leave {s : Session} {t : State} {places : List Place} :
      Next (running s t places) (idle { s with heap := t.heap } places)

/-- What may come in time, beginning with the moment itself. -/
abbrev Later : Moment → Moment → Prop := Relation.ReflTransGen Next

/-- What a session can come to. -/
def Reached (M : Moment) : Prop := Later (idle .new []) M

theorem Reached.later {M M' : Moment} (h : M.Reached) (h' : M.Later M') : M'.Reached :=
  Relation.ReflTransGen.trans h h'

/-- A step of the program that runs is made. -/
theorem Reached.step {s : Session} {t t' : State} {places : List Place}
    (h : (running s t places).Reached) (hstep : t.Steps s.distances t') :
    (running s t' (places ++ t.opened t')).Reached :=
  h.tail (.step hstep)

/-- The moment after so many steps, as long as nothing is asked of the outside. -/
def ahead : Nat → Moment → Moment
  | n + 1, running s t places =>
    match t.step s.distances with
    | .moved t' => ahead n (running s t' (places ++ t.opened t'))
    | _ => running s t places
  | _, M => M

theorem later_ahead (n : Nat) (M : Moment) : M.Later (M.ahead n) := by
  induction n generalizing M with
  | zero => exact .refl
  | succ n ih =>
    cases M with
    | idle s places => exact .refl
    | running s t places =>
      unfold ahead
      cases ht : t.step s.distances with
      | moved t' => exact (ih _).head (.step (.moved ht))
      | waiting _ _ | stopped _ _ => exact .refl

/-! ### The partners of a moment -/

/-- The references are all that the session knows, and the machine with lexical environments has a
partner for the moment: a memory, and a state besides while a program runs. -/
inductive Sound (known : List Reference) : Moment → Prop
  | idle {s : Session} {P : Plan} {left : List (FrameId × String)} {m : Lexical.Memory}
      (knows : s.Knows known) (heap : HeapRel (· ∈ known) P left s.heap m) :
      Sound known (idle s P.places)
  | running {s : Session} {t : State} {P : Plan} {left : List (FrameId × String)}
      {r : Lexical.State} (knows : s.Knows known) (related : Related (· ∈ known) P left t r) :
      Sound known (running s t P.places)
  | stuck {s : Session} {t : State} {P : Plan} {left : List (FrameId × String)}
      {m : Lexical.Memory} (knows : s.Knows known) (hstuck : t.IsStuck)
      (heap : HeapRel (· ∈ known) P left t.heap m) : Sound known (running s t P.places)

/-- While a program runs and is not stuck, its state has a partner. -/
theorem Sound.related {known : List Reference} {s : Session} {t : State} {places : List Place}
    (h : Sound known (.running s t places)) (hstuck : ¬ t.IsStuck) :
    s.Knows known ∧ ∃ P left r, P.places = places ∧ Related (· ∈ known) P left t r := by
  cases h with
  | running knows related => exact ⟨knows, _, _, _, rfl, related⟩
  | stuck _ h => exact absurd h hstuck

/-- What is known of the moment that comes next. Programs that are accepted add their references. -/
theorem Sound.next {known : List Reference} {M M' : Moment} (h : Sound known M)
    (hnext : M.Next M') : ∃ p : Program, M'.Sound (p.references ++ known) := by
  cases hnext with
  | @refuse s s' _ text faults hload =>
    cases h with
    | idle knows heap =>
      rw [← Session.heap_of_load hload] at heap
      exact ⟨[], .idle (knows.refuse hload) heap⟩
  | @accept s s' _ text p hload =>
    cases h with
    | idle knows heap =>
      obtain ⟨knows', related⟩ := knows.start heap hload
      exact ⟨p, .running knows' related⟩
  | step hstep =>
    obtain ⟨knows, P, left, r, rfl, related⟩ := h.related hstep.not_isStuck
    obtain ⟨r', harrives⟩ := related.arrives knows.lookup hstep
    obtain ⟨H, _⟩ := related
    refine ⟨[], ?_⟩
    cases harrives with
    | on hplaces opened related' =>
      obtain ⟨H', _⟩ := id related'
      rw [← H.heap.places_eq H'.heap hplaces opened]
      exact .running knows related'
    | stuck hplaces opened heap hs _ _ =>
      rw [← H.heap.places_eq heap hplaces opened]
      exact .stuck knows ⟨_, hs⟩ heap
  | leave =>
    refine ⟨[], ?_⟩
    cases h with
    | running knows related =>
      obtain ⟨H, _⟩ := related
      exact .idle (knows.withHeap _) H.heap
    | stuck knows _ heap => exact .idle (knows.withHeap _) heap

/-- In a tidy heap, what comes next keeps what there is, and is tidy. -/
theorem Sound.keeps {known : List Reference} {M M' : Moment} (h : Sound known M)
    (htidy : M.heap.Tidy M.places) (hnext : M.Next M') :
    M.heap.Keeps M'.heap ∧ M'.heap.Tidy M'.places ∧ M.places <+: M'.places := by
  cases hnext with
  | @refuse s s' places text faults hload | @accept s s' places text p hload =>
    have hheap := Session.heap_of_load hload
    refine ⟨?_, ?_, List.prefix_rfl⟩
    · show s.heap.Keeps s'.heap
      exact hheap ▸ .refl _
    · show s'.heap.Tidy places
      exact hheap ▸ htidy
  | step hstep =>
    obtain ⟨-, P, left, r, rfl, related⟩ := h.related hstep.not_isStuck
    obtain ⟨hkeeps, htidy'⟩ := related.becomes hstep htidy
    exact ⟨hkeeps, htidy', List.prefix_append ..⟩
  | leave => exact ⟨.refl _, htidy, List.prefix_rfl⟩

/-- At every moment that is reached there are partners, and what the session knows are references of
programs. -/
theorem Reached.sound {M : Moment} (h : M.Reached) :
    ∃ known : List Reference, (∀ r ∈ known, ∃ p : Program, r ∈ p.references) ∧ M.Sound known ∧
      M.heap.Tidy M.places := by
  induction h with
  | refl => exact ⟨[], nofun, .idle (P := []) Session.knows_new (.new _), rfl, nofun⟩
  | tail _ hnext ih =>
    obtain ⟨known, hknown, hsound, htidy⟩ := ih
    obtain ⟨p, hsound'⟩ := hsound.next hnext
    refine ⟨_, fun r hr ↦ ?_, hsound', (hsound.keeps htidy hnext).2.1⟩
    rcases List.mem_append.1 hr with hr | hr
    · exact ⟨p, hr⟩
    · exact hknown r hr

/-- What comes later keeps what there is. -/
theorem Later.keeps {M M' : Moment} (h : M.Later M') (hM : M.Reached) :
    M.heap.Keeps M'.heap ∧ M.places <+: M'.places := by
  induction h with
  | refl => exact ⟨.refl _, List.prefix_rfl⟩
  | tail hlater hnext ih =>
    obtain ⟨known, -, hsound, htidy⟩ := (hM.later hlater).sound
    obtain ⟨hkeeps, -, hprefix⟩ := hsound.keeps htidy hnext
    exact ⟨ih.1.trans hkeeps, ih.2.trans hprefix⟩

end Moment

end LoxLang
