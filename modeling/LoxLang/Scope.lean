import LoxLang.Fault

/-!
# Scopes of a program text

While a program is read for its scopes, each scope knows the names declared in it so far, and of
each name whether its declaration is finished: a variable is declared before its first value is
computed and finished after it. The local scopes that are open at a place form a stack, and below
them lies the global scope, which is special in two ways. It allows a name to be declared again,
and no distance is ever measured to it.
-/

namespace LoxLang

/-- The names declared in one scope, the latest first, each with whether it is finished. -/
abbrev Scope := List (String × Bool)

/-- Whether the scope declares a name. -/
def Scope.declares (s : Scope) (name : String) : Bool := (s.lookup name).isSome

/-- The scopes that are open at a place. -/
structure Scopes where
  /-- The local scopes, innermost first. -/
  locals : List Scope
  /-- The global scope. -/
  globals : Scope
deriving DecidableEq, Repr

namespace Scopes

/-- The global scope alone, with names that are bound already. -/
def ofGlobals (names : List String) : Scopes :=
  { locals := [], globals := names.map (·, true) }

/-- A new innermost scope. -/
def push (scope : Scope) (s : Scopes) : Scopes := { s with locals := scope :: s.locals }

/-- The scope that a declaration at this place goes to. -/
def innermost (s : Scopes) : Scope := s.locals.headD s.globals

/-- The number of local scopes between a place and the one that declares the name, or nothing if
none does. -/
def hops? (s : Scopes) (name : String) : Option Nat := s.locals.findIdx? (·.declares name)

/-- Whether the name is declared in the innermost scope, but not finished. -/
def unfinished (s : Scopes) (name : String) : Bool := s.innermost.lookup name == some false

/-- The name is finished in the innermost scope. -/
def define (s : Scopes) (name : String) : Scopes :=
  match s.locals with
  | [] => { s with globals := (name, true) :: s.globals }
  | scope :: rest => { s with locals := ((name, true) :: scope) :: rest }

/-- The name is declared in the innermost scope. A global name that is bound stays bound. -/
def declare (s : Scopes) (name : String) : Scopes :=
  match s.locals with
  | [] => if s.globals.declares name then s else { s with globals := (name, false) :: s.globals }
  | scope :: rest => { s with locals := ((name, false) :: scope) :: rest }

/-- The fault of declaring a name at this place, if it is one. -/
def declarationFault? (s : Scopes) (name : String) (span : Span) : Option Fault :=
  match s.locals with
  | [] => none
  | scope :: _ => if scope.declares name then some ⟨.alreadyDefined name, span⟩ else none

end Scopes

end LoxLang
