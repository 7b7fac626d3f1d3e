import LoxLang.Program.OfTokens
import LoxLang.World

/-!
# Sessions

A session is fed sources one after another. Definitions persist from one to the next, and so do the
sources themselves: spans count from the start of the first, each source ending with a line break.
A source that is refused is kept too, since its faults point into it, but it changes nothing else.
-/

namespace LoxLang

/-- What persists between the sources of a session. -/
structure Session where
  /-- All sources so far, each followed by a line break. -/
  source : String
  /-- The distances of all accepted programs, the latest first. -/
  distances : Distances
  /-- Variables, fields and what else changes. -/
  heap : Heap

/-- How a source came out. -/
inductive Verdict where
  | ok
  /-- It was refused for these faults, or stopped by one. -/
  | failed (faults : List Fault)
  | broken (anomaly : Anomaly)
  /-- It was given too few steps. -/
  | unfinished
deriving DecidableEq, Repr

namespace Session

/-- A session without sources, in which the given functions are bound. -/
def new : Session :=
  { source := ""
    distances := []
    heap := Native.all.foldl (fun h n ↦ h.define Heap.globals n.name (.native n)) .empty }

/-- The names of the global scope. -/
def globalNames (s : Session) : List String := (s.heap.frame Heap.globals.frame).names

/-- Takes in a source: the session with the source, and its program or its faults. -/
def load (s : Session) (text : String) : Session × Except (List Fault) Program :=
  let offset := s.source.utf8ByteSize
  let s := { s with source := s.source ++ text ++ "\n" }
  match Program.read text offset with
  | .error faults => (s, .error faults)
  | .ok program =>
    match program.distances s.globalNames with
    | .error faults => (s, .error faults)
    | .ok table => ({ s with distances := table.reverse ++ s.distances }, .ok program)

/-- A source is kept whether it is accepted or not. -/
@[simp] theorem source_load (s : Session) (text : String) :
    (s.load text).1.source = s.source ++ text ++ "\n" := by
  simp only [load]
  split
  · rfl
  · split <;> rfl

/-- Taking in a source runs nothing. -/
@[simp] theorem heap_load (s : Session) (text : String) : (s.load text).1.heap = s.heap := by
  simp only [load]
  split
  · rfl
  · split <;> rfl

theorem heap_of_load {s s' : Session} {text : String} {result : Except (List Fault) Program}
    (h : s.load text = (s', result)) : s'.heap = s.heap := by
  rw [← heap_load s text, h]

/-- The verdict on a program from how it ended. -/
def verdict : Option Ending → Verdict
  | some .done => .ok
  | some (.stuck (.fault f)) => .failed [f]
  | some (.stuck (.anomaly a)) => .broken a
  | none => .unfinished

/-- More steps than can be made in any time there is. -/
def ample : Nat := Nat.pow 10 18

/-- Runs a source, for at most so many steps. -/
def run (fuel : Nat) (w : World) (s : Session) (text : String) : Verdict × World × Session :=
  match s.load text with
  | (s, .error faults) => (.failed faults, w, s)
  | (⟨source, distances, heap⟩, .ok program) =>
    let (w, heap, ending) := (State.start heap program).run distances fuel w
    (verdict ending, w, { source, distances, heap })

end Session

end LoxLang
