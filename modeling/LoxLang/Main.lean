import Std.Time.DateTime.Timestamp
import LoxLang.Console.Arguments
import LoxLang.Console.Dialogue

/-!
# The program

Here the requests of the machine get their answers from the outside: lines go to the output channel
and come from the input channel, and the clock is that of the system. What is asked for on the
command line, what a program does and what is reported about it is decided elsewhere.
-/

namespace LoxLang.Console

/-- The reason behind an error of the system. -/
def Reason.ofError : IO.Error → Reason
  | .noFileOrDirectory .. => .noSuchFile
  | .alreadyExists .. => .fileExists
  | .inappropriateType _ 21 _ => .isDirectory
  | .inappropriateType .. => .notADirectory
  | .resourceExhausted _ 28 _ => .deviceFull
  | e => .other (toString e)

/-- Writes a line at once, and says whether that was possible. -/
def writeLine (text : String) : IO Bool := do
  let output ← IO.getStdout
  try
    output.putStr text
    output.putStr "\n"
    output.flush
    return true
  catch _ => return false

/-- Reads the bytes of a line, the latest first. -/
partial def readBytes (input : IO.FS.Stream) (line : List UInt8) : IO (List UInt8) := do
  match (← input.read 1).toList with
  | [] => return line
  | b :: _ => if b = 10 then return b :: line else readBytes input (b :: line)

/-- Answers a request. -/
def answer : (r : Request) → IO r.Reply
  | .writeLine text => writeLine text
  | .readLine => do
    match (← readBytes (← IO.getStdin) []).reverse with
    | [] => return InputLine.closed
    | line => return World.decodeLine line
  | .readClock => do
    let now ← Std.Time.Timestamp.now
    return Float.ofInt now.toMillisecondsSinceUnixEpoch.val / 1000

/-- Runs the machine to the end. -/
partial def play (table : Distances) (s : State) : IO (Heap × Ending) := do
  match s.step table with
  | .moved s => play table s
  | .waiting request resume => play table (resume (← answer request))
  | .stopped ending heap => return (heap, ending)

/-- Runs a source in a session. -/
def runSource (s : Session) (text : String) : IO (Completion × Session) := do
  match s.load text with
  | (s, .error faults) => return (.ofVerdict s.source (.failed faults), s)
  | (s, .ok program) =>
    let (heap, ending) ← play s.distances (State.start s.heap program)
    return (.ofVerdict s.source (Session.verdict (some ending)), { s with heap })

/-- Ends a command: what it has to report is written, and its status is that of the program. -/
def conclude (c : Completion) : IO UInt32 := do
  IO.eprint c.errors
  return c.status.toUInt32

/-- Does something with the text of a file. -/
def withFile (path : String) (act : String → IO UInt32) : IO UInt32 := do
  match ← (IO.FS.readBinFile path).toBaseIO with
  | .error e => conclude (Failure.unreadable path (.ofError e)).completion
  | .ok bytes =>
    match String.fromUTF8? bytes with
    | none => conclude (Failure.unreadable path .notText).completion
    | some text => act text

/-- Writes lines until one is refused, and says whether none was. -/
def writeAll : List String → IO Bool
  | [] => return true
  | line :: rest => do if ← writeLine line then writeAll rest else return false

/-- Writes the expressions of a program in postfix notation. -/
def showPostfix (text : String) : IO UInt32 := do
  match Program.read text 0 with
  | .error faults => conclude { reported text faults with status := refusedStatus }
  | .ok program =>
    if ← writeAll program.postfixLines then return 0
    else conclude (Failure.unwritable .deviceFull).completion

/-- Runs what is typed, until the input ends. A line of the input is typed as its characters and
the enter key. -/
partial def converse (d : Dialogue) : IO (Dialogue × UInt32) := do
  let output ← IO.getStdout
  output.putStr (if d.editor.buffer.isEmpty then d.prompt else d.continuation)
  output.flush
  let bytes := (← readBytes (← IO.getStdin) []).reverse
  if bytes.isEmpty then return (d, 0)
  match World.decodeLine bytes with
  | .line text =>
    let keys := text.toList.map Key.char ++ [.enter]
    match d.editor.pressAll d.history.latestFirst keys with
    | .inl editor => converse { d with editor }
    | .inr (.submitted line) =>
      let d := d.remember line
      if Text.allBlank line then converse d
      else
        let (completion, session) ← runSource d.session line
        let d := { d with session, inputs := d.inputs + 1 }
        let status ← conclude completion
        if completion.isBroken then return (d, status) else converse d
    | .inr _ => return (d, 0)
  | _ => converse d

/-- The directory for the history, if there is a place for it. -/
def historyDirectory? : IO (Option String) := do
  match ← IO.getEnv "XDG_DATA_HOME", ← IO.getEnv "HOME" with
  | some data, _ => return some (data ++ "/lox")
  | none, some home => return some (home ++ "/.local/share/lox")
  | none, none => return none

/-- A dialogue whose history is kept in a file. -/
def keepHistory (directory : String) : IO UInt32 := do
  let path := directory ++ "/history.txt"
  match ← (IO.FS.createDirAll directory).toBaseIO with
  | .error e => conclude (Failure.noHistory path (.ofError e)).completion
  | .ok () =>
    let file ← try IO.FS.readFile path catch _ => pure ""
    let (d, status) ← converse (.start (.ofFile file))
    IO.FS.writeFile path d.history.toFile
    return status

/-- A dialogue. -/
def startDialogue : IO UInt32 := do
  match ← historyDirectory? with
  | some directory => keepHistory directory
  | none => return (← converse (.start (.ofFile ""))).2

/-- How the program is called. -/
def usage : String := "Usage: lox [--log] repl | run PATH | rpn PATH\n"

/-- The version of the program. -/
def version : String := "lox 0.1.0\n"

/-- Says why a command line names no command, or gives the answer that it asks for. -/
def explain (f : UsageFault) : IO UInt32 := do
  match f with
  | .version => IO.print version
  | .help => IO.print usage
  | _ => IO.eprint usage
  return if f.isAnswer then 0 else 2

end LoxLang.Console

open LoxLang.Console

/-- Does what the command line asks for. -/
def main (arguments : List String) : IO UInt32 := do
  match Invocation.ofArguments arguments with
  | .error f => explain f
  | .ok invocation =>
    match invocation.command with
    | .run path => withFile path fun text ↦ do
      let (completion, _) ← runSource .new text
      conclude completion
    | .postfixForm path => withFile path showPostfix
    | .interactive => startDialogue
