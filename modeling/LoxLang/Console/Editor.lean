import LoxLang.Program.OfTokens

/-!
# Typing

What is typed goes to the end of a buffer. The enter key submits the buffer once it is complete,
and until then begins a new line. The arrow up walks back through the entries of the history; an
entry that equals the one just shown is passed over.
-/

namespace LoxLang.Console

/-- The keys. -/
inductive Key where
  | char (c : Char)
  | enter
  /-- Enter together with the alternate key. -/
  | newLine
  | interrupt
  | endOfInput
  | up
deriving DecidableEq, Repr

/-- The keys that a terminal sends as these characters. -/
def Key.ofChars : List Char → List Key
  | '\x1b' :: '\r' :: rest => newLine :: ofChars rest
  | '\x1b' :: '[' :: 'A' :: rest => up :: ofChars rest
  | c :: rest =>
    (match c with
      | '\r' => enter
      | '\x03' => interrupt
      | '\x04' => endOfInput
      | c => char c) :: ofChars rest
  | [] => []

/-- What is being typed. -/
structure Editor where
  /-- The text so far. -/
  buffer : String
  /-- The entries that the arrow up leads to, the latest first, if it was the last key. -/
  earlier : Option (List String)
deriving DecidableEq, Repr

/-- How typing a line ends. -/
inductive Typed where
  | submitted (line : String)
  | interrupted
  | closed
deriving DecidableEq, Repr

namespace Editor

/-- Nothing typed. -/
def blank : Editor := { buffer := "", earlier := none }

/-- With this text, after any key but the arrow up. -/
def ofBuffer (buffer : String) : Editor := { buffer, earlier := none }

/-- The arrow up: the latest of the earlier entries that differs from what is shown. -/
def goUp (e : Editor) (history : List String) : Editor :=
  match e.earlier with
  | none =>
    match history with
    | [] => e
    | entry :: rest => { buffer := entry, earlier := some rest }
  | some entries =>
    match entries.dropWhile (· == e.buffer) with
    | [] => e
    | entry :: rest => { buffer := entry, earlier := some rest }

/-- What a key does: the editor goes on, or the line ends. The entries of the history come latest
first. -/
def press (e : Editor) (history : List String) : Key → Editor ⊕ Typed
  | .char c => .inl (ofBuffer (e.buffer.push c))
  | .newLine => .inl (ofBuffer (e.buffer.push '\n'))
  | .enter =>
    if Program.isComplete e.buffer then .inr (.submitted e.buffer)
    else .inl (ofBuffer (e.buffer.push '\n'))
  | .interrupt => .inr .interrupted
  | .endOfInput => if e.buffer.isEmpty then .inr .closed else .inl (ofBuffer e.buffer)
  | .up => .inl (e.goUp history)

/-- What several keys do. Once the line has ended the others are not looked at. -/
def pressAll (e : Editor) (history : List String) : List Key → Editor ⊕ Typed
  | [] => .inl e
  | key :: rest =>
    match e.press history key with
    | .inl e => e.pressAll history rest
    | .inr typed => .inr typed

end Editor

end LoxLang.Console
