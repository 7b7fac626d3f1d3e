import LoxLang.Program.Postfix
import LoxLang.Report
import LoxLang.Session

/-!
# Commands

What a command does with the text of a program, and how it says that something outside failed. The
exit status tells three ends apart: the program ran to its end, it was refused before it started,
and it was stopped by a fault while it ran.
-/

namespace LoxLang.Console

/-- How a command ends, apart from what it printed. -/
structure Completion where
  /-- What is written to the error channel. -/
  errors : String
  /-- The exit status. -/
  status : Nat
deriving DecidableEq, Repr

/-- Why something outside the program failed. -/
inductive Reason where
  | noSuchFile
  | isDirectory
  | notADirectory
  /-- The bytes of a file are no text. -/
  | notText
  | fileExists
  | deviceFull
  /-- Any other reason, in the words of the system. -/
  | other (text : String)
deriving DecidableEq, Repr

/-- A reason in words. -/
def Reason.message : Reason → String
  | noSuchFile => "No such file or directory (os error 2)"
  | isDirectory => "Is a directory (os error 21)"
  | notADirectory => "Not a directory (os error 20)"
  | notText => "stream did not contain valid UTF-8"
  | fileExists => "File exists (os error 17)"
  | deviceFull => "No space left on device (os error 28)"
  | other text => text

/-- What a command could not do. -/
inductive Failure where
  | unreadable (path : String) (reason : Reason)
  | noHistory (path : String) (reason : Reason)
  | unwritable (reason : Reason)
deriving DecidableEq, Repr

/-- A failure and its reason in words. -/
def Failure.message (f : Failure) : String :=
  let (what, reason) :=
    match f with
    | unreadable path reason => ("could not read file: " ++ path, reason)
    | noHistory path reason => ("could not open history file: " ++ path, reason)
    | unwritable reason => ("could not write to stdout", reason)
  what ++ "\n\nCaused by:\n    " ++ reason.message

/-- A command that could not do what it should. -/
def Failure.completion (f : Failure) : Completion :=
  { errors := "Error: " ++ f.message ++ "\n", status := 1 }

/-- The status of a program that was refused. -/
def refusedStatus : Nat := 65

/-- The status of a program that was stopped by a fault. -/
def stoppedStatus : Nat := 70

/-- The status of a program that was stopped by an anomaly. -/
def brokenStatus : Nat := 134

/-- The status for a list of faults: it tells whether one of them is static. -/
def statusOf (faults : List Fault) : Nat :=
  if faults.any (·.isStatic) then refusedStatus else stoppedStatus

/-- The end of a command that found faults in a source. -/
def reported (source : String) (faults : List Fault) : Completion :=
  { errors := Report.render source faults, status := statusOf faults }

/-- The end of a command that ran a source. -/
def Completion.ofVerdict (source : String) : Verdict → Completion
  | .ok => { errors := "", status := 0 }
  | .failed faults => reported source faults
  | .broken a => { errors := a.message ++ "\n", status := brokenStatus }
  | .unfinished => { errors := "", status := brokenStatus }

/-- Whether a program was stopped by an anomaly, after which nothing goes on. -/
def Completion.isBroken (c : Completion) : Bool := c.status == brokenStatus

/-- Runs the text of a program in a session of its own. -/
def runText (w : World) (text : String) : Completion × World :=
  let (verdict, w, s) := Session.new.run Session.ample w text
  (.ofVerdict s.source verdict, w)

/-- Writes lines until one is refused, and says whether none was. -/
def writeLines (w : World) : List String → Bool × World
  | [] => (true, w)
  | line :: rest =>
    match w.writeLine line with
    | (true, w) => writeLines w rest
    | (false, w) => (false, w)

/-- Writes the expressions of a program in postfix notation. -/
def writePostfix (w : World) (text : String) : Except Failure Completion × World :=
  match Program.read text 0 with
  | .error faults => (.ok { reported text faults with status := refusedStatus }, w)
  | .ok program =>
    match writeLines w program.postfixLines with
    | (true, w) => (.ok { errors := "", status := 0 }, w)
    | (false, w) => (.error (.unwritable .deviceFull), w)

end LoxLang.Console
