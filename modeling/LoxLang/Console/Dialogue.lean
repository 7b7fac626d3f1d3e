import LoxLang.Console.Command
import LoxLang.Console.Editor
import LoxLang.Console.History

/-!
# Dialogues

A dialogue runs what is typed, line by line, in one session. Every line that is submitted goes to
the history. A blank one is not run; any other is, and counts for the number in the prompt whether
it fails or not. Only an anomaly ends the dialogue before its time.
-/

namespace LoxLang.Console

/-- A dialogue between two lines, or in the middle of one. -/
structure Dialogue where
  /-- The session in which lines are run. -/
  session : Session
  /-- How many lines have been run. -/
  inputs : Nat
  /-- What has been typed before. -/
  history : History
  /-- What is being typed. -/
  editor : Editor

/-- What is seen of a line. -/
inductive Turn where
  /-- It was submitted: the screen, what was printed, and how it ended. -/
  | submitted (screen printed : String) (completion : Completion)
  /-- It was dropped. -/
  | interrupted
  /-- The dialogue is over. -/
  | closed
deriving DecidableEq, Repr

/-- Whether the dialogue ends with this line. -/
def Turn.isLast : Turn → Bool
  | submitted _ _ completion => completion.isBroken
  | interrupted => false
  | closed => true

/-- What is written when a line is dropped. -/
def interruptMark : String := "^C\n"

namespace Dialogue

/-- A dialogue before its first line. -/
def start (history : History) : Dialogue :=
  { session := .new, inputs := 0, history, editor := .blank }

/-- The number of the next line to be run, in brackets. -/
def label (d : Dialogue) : String := s!"[{d.inputs + 1}]"

/-- What stands before the first line of the buffer. -/
def prompt (d : Dialogue) : String := d.label ++ "> "

/-- What stands before its other lines: dots, so that the texts of all lines begin in the same
column. -/
def continuation (d : Dialogue) : String := Report.alignRight (d.label.length + 1) "..." ++ " "

/-- The buffer as it stands on the screen. -/
def screen (d : Dialogue) (buffer : String) : String :=
  d.prompt ++ String.join (buffer.toList.map fun c ↦
    if c = '\n' then "\n" ++ d.continuation else c.toString)

/-- A submitted line is taken in: it goes to the history and the next line is begun. -/
def remember (d : Dialogue) (line : String) : Dialogue :=
  { d with history := d.history.add line, editor := .blank }

/-- A submitted line is run, unless it is blank. What was printed before is no longer held. -/
def submit (w : World) (d : Dialogue) (line : String) : Turn × World × Dialogue :=
  let screen := d.screen line
  let d := d.remember line
  let w := { w with printed := "" }
  if Text.allBlank line then (.submitted screen "" ⟨"", 0⟩, w, d)
  else
    let (verdict, w, session) := d.session.run Session.ample w line
    let completion := Completion.ofVerdict session.source verdict
    (.submitted screen w.printed completion, w, { d with session, inputs := d.inputs + 1 })

/-- Keys are typed. There is no turn if they do not end a line. -/
def type (w : World) (d : Dialogue) (keys : List Key) : Option Turn × World × Dialogue :=
  match d.editor.pressAll d.history.latestFirst keys with
  | .inl editor => (none, w, { d with editor })
  | .inr (.submitted line) =>
    let (turn, w, d) := submit w d line
    (some turn, w, d)
  | .inr .interrupted => (some .interrupted, w, { d with editor := .blank })
  | .inr .closed => (some .closed, w, d)

/-- Several lots of keys are typed, until the dialogue is over. -/
def typeAll (w : World) (d : Dialogue) : List (List Key) → List Turn × Dialogue
  | [] => ([], d)
  | keys :: rest =>
    match type w d keys with
    | (none, w, d) => typeAll w d rest
    | (some turn, w, d) =>
      if turn.isLast then ([turn], d)
      else
        let (turns, d) := typeAll w d rest
        (turn :: turns, d)

end Dialogue

end LoxLang.Console
