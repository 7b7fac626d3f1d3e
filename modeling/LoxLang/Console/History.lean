import LoxLang.Text.Lines

/-!
# The history of what was typed

Entries are kept in a file between sessions, one line for each; a line break inside an entry has a
spelling of its own, `lineBreak`. An entry is kept unless it is empty or repeats the one before it.
Only the latest entries are kept, and the file is cut only when there are too many: otherwise new
entries are added at its end.
-/

namespace LoxLang.Console

/-- The entries of a file, and those typed since. -/
structure History where
  /-- The text of the file. -/
  file : String
  /-- The entries of the file, the earliest first. -/
  old : List String
  /-- The entries of this session, the earliest first. -/
  own : List String
deriving DecidableEq, Repr

namespace History

/-- The most entries that are kept. -/
def capacity : Nat := 1000

/-- How a line break inside an entry is written. -/
def lineBreak : List Char := ['<', '\\', 'n', '>']

/-- An entry as a line of the file. -/
def encode (entry : String) : String :=
  String.ofList (entry.toList.flatMap fun c ↦ if c = '\n' then lineBreak else [c])

/-- The entry of a line of the file. -/
def decode : List Char → List Char
  | '<' :: '\\' :: 'n' :: '>' :: rest => '\n' :: decode rest
  | c :: rest => c :: decode rest
  | [] => []

/-- The entries of a file, one for each line. -/
def entriesOf (file : String) : List String :=
  (Text.readLines file).map fun l ↦ String.ofList (decode l.toList)

/-- The history of a file. -/
def ofFile (file : String) : History := { file, old := entriesOf file, own := [] }

/-- The entries that are kept, the latest first. -/
def latestFirst (h : History) : List String := (h.own.reverse ++ h.old.reverse).take capacity

/-- With one more entry, unless it is empty or repeats the one before it. -/
def add (h : History) (entry : String) : History :=
  if entry.isEmpty || h.latestFirst.head? == some entry then h
  else { h with own := h.own ++ [entry] }

/-- Entries as lines of the file. -/
def linesOf (entries : List String) : String := String.join (entries.map (encode · ++ "\n"))

/-- The text of the file after the session. -/
def toFile (h : History) : String :=
  let own := h.own.drop (h.own.length - capacity)
  let kept := capacity - own.length
  if h.old.length ≤ kept then h.file ++ linesOf own
  else linesOf (h.old.drop (h.old.length - kept)) ++ linesOf own

end History

end LoxLang.Console
