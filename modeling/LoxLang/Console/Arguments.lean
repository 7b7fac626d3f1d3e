/-!
# The command line

A command line names a command and, for a command that reads a program, the path of the program.
Options begin with a dash and may stand anywhere until a `--`, after which every word counts as a
plain one. Words are read from left to right, and the first thing that is wrong, or that asks for
help, decides.
-/

namespace LoxLang.Console

/-- What can be asked for. -/
inductive Command where
  /-- To run the program at a path. -/
  | run (path : String)
  /-- To write the expressions of the program at a path in postfix notation. -/
  | postfixForm (path : String)
  /-- To run what is typed. -/
  | interactive
deriving DecidableEq, Repr

/-- What a command line asks for. -/
structure Invocation where
  /-- The command. -/
  command : Command
  /-- Whether logging is asked for, which changes nothing else. -/
  logged : Bool
deriving DecidableEq, Repr

/-- Why a command line names no command. -/
inductive UsageFault where
  /-- It is empty. -/
  | nothingAsked
  /-- It has options, but no command. -/
  | missingCommand
  | missingPath
  | unknownCommand
  | unknownArgument
  /-- An option that takes no value has one. -/
  | unneededValue
  | repeatedOption
  /-- Help is asked for. -/
  | help
  /-- The version is asked for. -/
  | version
deriving DecidableEq, Repr

/-- Whether the command line did what was asked for by naming no command. -/
def UsageFault.isAnswer : UsageFault → Bool
  | help | version => true
  | _ => false

/-- The commands by their words, before the path of the program is known. -/
inductive Verb where
  | run | postfixForm | interactive
deriving DecidableEq, Repr

namespace Verb

/-- The command of a word. -/
def ofWord? : String → Option Verb
  | "run" => some run
  | "rpn" => some postfixForm
  | "repl" => some interactive
  | _ => none

/-- The command with its path, if it takes one. -/
def complete (v : Verb) (path : Option String) : Except UsageFault Command :=
  match v, path with
  | interactive, _ => .ok .interactive
  | run, some path => .ok (.run path)
  | postfixForm, some path => .ok (.postfixForm path)
  | _, none => .error .missingPath

/-- Whether one more plain word can be the path. -/
def takesPath (v : Verb) (path : Option String) : Bool := v != interactive && path.isNone

end Verb

/-- What an option asks for. -/
inductive Switch where
  | log
  | stop (fault : UsageFault)
deriving DecidableEq, Repr

/-- The option of a word, unless it is a plain one. A lone dash is plain. -/
def switch? (word : String) : Option Switch :=
  match word.toList with
  | '-' :: '-' :: name =>
    match name.span (· ≠ '=') with
    | (['l', 'o', 'g'], []) => some .log
    | (['h', 'e', 'l', 'p'], []) => some (.stop .help)
    | (['v', 'e', 'r', 's', 'i', 'o', 'n'], []) => some (.stop .version)
    | (['l', 'o', 'g'], _) | (['h', 'e', 'l', 'p'], _)
    | (['v', 'e', 'r', 's', 'i', 'o', 'n'], _) => some (.stop .unneededValue)
    | _ => some (.stop .unknownArgument)
  | '-' :: 'h' :: _ => some (.stop .help)
  | '-' :: 'V' :: _ => some (.stop .version)
  | '-' :: _ :: _ => some (.stop .unknownArgument)
  | _ => none

/-- The words after that of a command. `path` is the path if it has been read, `plain` says whether
options are over, and `logged` whether logging has been asked for since the command. -/
def readRest (v : Verb) (path : Option String) (plain logged : Bool) :
    List String → Except UsageFault Invocation
  | [] => (v.complete path).map fun command ↦ { command, logged }
  | word :: rest =>
    if !plain && word == "--" then readRest v path true logged rest
    else
      match if plain then none else switch? word with
      | some .log =>
        if logged then .error .repeatedOption else readRest v path plain true rest
      | some (.stop fault) => .error fault
      | none =>
        if v.takesPath path then readRest v (some word) plain logged rest
        else .error .unknownArgument

/-- The words up to that of the command. `logged` says whether logging has been asked for. -/
def readCommand (logged : Bool) : List String → Except UsageFault Invocation
  | [] => .error (if logged then .missingCommand else .nothingAsked)
  | "--" :: [] => .error (if logged then .missingCommand else .nothingAsked)
  | "--" :: word :: _ =>
    .error (if (Verb.ofWord? word).isSome then .unknownArgument else .unknownCommand)
  | word :: rest =>
    match switch? word with
    | some .log => if logged then .error .repeatedOption else readCommand true rest
    | some (.stop fault) => .error fault
    | none =>
      match Verb.ofWord? word with
      | some v => (readRest v none false false rest).map fun i ↦
          { i with logged := i.logged || logged }
      | none => .error .unknownCommand

/-- What a command line asks for. -/
def Invocation.ofArguments (arguments : List String) : Except UsageFault Invocation :=
  readCommand false arguments

end LoxLang.Console
