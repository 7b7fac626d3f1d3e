import LoxLang.Program
import LoxLang.Scope

/-!
# Distances of references

The distance of a reference is the number of scopes between it and the scope that declares its
name. Scopes can be counted in the text, before a program runs; what is found in no local scope is
global and has no distance. The same walk finds what is misplaced: a `return` outside functions,
`this` and `super` outside classes, and so on.

The walk is a writer. An expression has a list of findings, in the order in which its parts are
visited, and a statement has such a list together with the scopes as they are after it. So
distances and faults are two selections from one list, and neither depends on the other.
-/

namespace LoxLang

/-- What the walk finds: a reference with its distance, or a fault. -/
inductive Finding where
  | distance (span : Span) (hops : Nat)
  | fault (fault : Fault)
deriving DecidableEq, Repr

/-- The kinds of functions. A method that sets up instances is told apart from the others because
it returns no value of its own. -/
inductive FunctionKind where
  | plain | method | initializer
deriving DecidableEq, Repr

/-- A class as seen from within. -/
structure ClassContext where
  /-- Its name. -/
  name : String
  /-- Whether it has a superclass. -/
  inherits : Bool
deriving DecidableEq, Repr

/-- What encloses a place: the nearest function and the nearest class, if there are any. -/
structure Surroundings where
  /-- The kind of the nearest function. -/
  function : Option FunctionKind := none
  /-- The nearest class. -/
  cls : Option ClassContext := none
deriving DecidableEq, Repr

/-- The distances of references, by their spans. -/
abbrev Distances := List (Span × Nat)

namespace Finding

/-! ### Findings at one place -/

/-- A fault at a place. -/
def misplaced (span : Span) (cause : Cause) : Finding := .fault ⟨cause, span⟩

/-- A reference to a name. -/
def reference (s : Scopes) (span : Span) (name : String) : List Finding :=
  (s.hops? name).toList.map (distance span)

/-- A variable that is read. It must not be read in its own declaration, as far as the innermost
scope can tell. -/
def reading (s : Scopes) (span : Span) (name : String) : List Finding :=
  (if s.unfinished name then [misplaced span (.readInOwnInitializer name)] else []) ++
    reference s span name

/-- A declaration at this place, and the scopes with the declared name. -/
def declaring (s : Scopes) (span : Span) (name : String) : Scopes × List Finding :=
  (s.declare name, (s.declarationFault? name span).toList.map fault)

/-- A declaration that is finished at once. -/
def defining (s : Scopes) (span : Span) (name : String) : Scopes × List Finding :=
  ((s.declare name).define name, (s.declarationFault? name span).toList.map fault)

/-- The parameters of a function, one after another. -/
def parameters (s : Scopes) : List Name → Scopes × List Finding
  | [] => (s, [])
  | p :: rest =>
    let (s, found) := defining s p.span p.text
    let (s, others) := parameters s rest
    (s, found ++ others)

/-- What is wrong with `super` at a place. -/
def superFaults (cx : Surroundings) (span : Span) : List Finding :=
  match cx.cls with
  | none => [misplaced span .superOutsideClass]
  | some c => if c.inherits then [] else [misplaced span (.superWithoutSuperclass c.name)]

/-- What is wrong with `this` at a place. -/
def thisFaults (cx : Surroundings) (span : Span) : List Finding :=
  if cx.cls.isNone then [misplaced span .thisOutsideClass] else []

/-- What is wrong with a `return` at a place. -/
def returnFaults (cx : Surroundings) (span : Span) (hasValue : Bool) : List Finding :=
  (if cx.function.isNone then [misplaced span .returnOutsideFunction] else []) ++
    if hasValue && cx.function == some .initializer then [misplaced span .valueFromInitializer]
    else []

/-- The superclass of a class with this name, read as a variable. -/
def superclass (s : Scopes) (name : String) (parent : Name) : List Finding :=
  (if parent.text == name then [misplaced parent.span (.inheritsFromItself name)] else []) ++
    reading s parent.span parent.text

/-- The kind of a method. -/
def methodKind (f : FunDecl) : FunctionKind := if f.isInitializer then .initializer else .method

/-- The scopes in which the methods of a class stand: one that knows `this`, within one that knows
`super` if there is a superclass. -/
def methodScopes (s : Scopes) (inherits : Bool) : Scopes :=
  (if inherits then s.push [("super", true)] else s).push [("this", true)]

mutual

/-- The findings of an expression. A value is visited before the place it is assigned to. -/
def ofExpr (cx : Surroundings) (s : Scopes) : Expr → List Finding
  | .literal _ _ => []
  | .var span name => reading s span name
  | .assign span name value => ofExpr cx s value ++ reference s span name
  | .step span _ _ name => reference s span name
  | .group _ inner => ofExpr cx s inner
  | .unary _ _ operand => ofExpr cx s operand
  | .binary _ _ left right => ofExpr cx s left ++ ofExpr cx s right
  | .call _ callee arguments => ofExpr cx s callee ++ ofExprs cx s arguments
  | .property _ object _ => ofExpr cx s object
  | .setProperty _ object _ value => ofExpr cx s value ++ ofExpr cx s object
  | .this span => thisFaults cx span ++ reference s span "this"
  | .super span _ => superFaults cx span ++ reference s span "super"
  | .lambda function => ofFunction cx s .plain function

/-- The findings of several expressions. -/
def ofExprs (cx : Surroundings) (s : Scopes) : List Expr → List Finding
  | [] => []
  | e :: rest => ofExpr cx s e ++ ofExprs cx s rest

/-- The findings of an expression that may be missing. -/
def ofExpr? (cx : Surroundings) (s : Scopes) : Option Expr → List Finding
  | none => []
  | some e => ofExpr cx s e

/-- The findings of a function. Its parameters and its body share one scope. -/
def ofFunction (cx : Surroundings) (s : Scopes) (kind : FunctionKind) : FunDecl → List Finding
  | .mk _ _ params body =>
    let (s, found) := parameters (s.push []) params
    found ++ (ofStmts { cx with function := some kind } s body).2

/-- The findings of the methods of a class. -/
def ofMethods (cx : Surroundings) (s : Scopes) : List FunDecl → List Finding
  | [] => []
  | f :: rest => ofFunction cx s (methodKind f) f ++ ofMethods cx s rest

/-- The findings of a statement, and the scopes after it. The clauses of a `for` are visited before
its body. -/
def ofStmt (cx : Surroundings) (s : Scopes) : Stmt → Scopes × List Finding
  | .expression _ value => (s, ofExpr cx s value)
  | .print _ value => (s, ofExpr cx s value)
  | .varDecl span name value =>
    let (s, found) := declaring s span name
    (s.define name, found ++ ofExpr? cx s value)
  | .funDecl function =>
    let (s, found) := defining s function.span function.name
    (s, found ++ ofFunction cx s .plain function)
  | .classDecl span name parent methods =>
    let (s, found) := defining s span name
    let inside := { cx with cls := some ⟨name, parent.isSome⟩ }
    (s, found ++ (parent.elim [] (superclass s name)) ++
      ofMethods inside (methodScopes s parent.isSome) methods)
  | .block _ body => (s, (ofStmts cx (s.push []) body).2)
  | .conditional _ condition yes no =>
    let found := ofExpr cx s condition
    let (s, ifYes) := ofStmt cx s yes
    let (s, ifNo) := ofStmt? cx s no
    (s, found ++ ifYes ++ ifNo)
  | .whileLoop _ condition body =>
    let found := ofExpr cx s condition
    let (s, inBody) := ofStmt cx s body
    (s, found ++ inBody)
  | .forLoop _ init condition step body =>
    let (inner, inInit) := ofStmt? cx (s.push []) init
    (s, inInit ++ ofExpr? cx inner condition ++ ofExpr? cx inner step ++
      (ofStmt cx inner body).2)
  | .returns span value =>
    (s, returnFaults cx span value.isSome ++ ofExpr? cx s value)

/-- The findings of several statements, and the scopes after them. -/
def ofStmts (cx : Surroundings) (s : Scopes) : List Stmt → Scopes × List Finding
  | [] => (s, [])
  | stmt :: rest =>
    let (s, found) := ofStmt cx s stmt
    let (s, others) := ofStmts cx s rest
    (s, found ++ others)

/-- The findings of a statement that may be missing, and the scopes after it. -/
def ofStmt? (cx : Surroundings) (s : Scopes) : Option Stmt → Scopes × List Finding
  | none => (s, [])
  | some stmt => ofStmt cx s stmt

end

/-! ### Selections -/

/-- The faults among findings. -/
def faults (found : List Finding) : List Fault :=
  found.filterMap fun | .fault f => some f | .distance .. => none

/-- The distances among findings. -/
def distances (found : List Finding) : Distances :=
  found.filterMap fun | .distance span hops => some (span, hops) | .fault _ => none

end Finding

/-- The entries of a table in the order of their spans. -/
def Distances.ordered (table : Distances) : Distances :=
  table.mergeSort fun a b ↦ a.1.before b.1

namespace Program

/-- All findings of a program whose global scope has these names already. -/
def findings (globals : List String) (p : Program) : List Finding :=
  (Finding.ofStmts {} (.ofGlobals globals) p).2

/-- The distances of all local references of a program, or its faults. -/
def distances (globals : List String) (p : Program) : Except (List Fault) Distances :=
  let found := p.findings globals
  if (Finding.faults found).isEmpty then .ok (Finding.distances found)
  else .error (Finding.faults found)

end Program

end LoxLang
