import LoxLang.Program.Distances

/-!
# Layers of scopes

The local scopes that are open at a place in a program, as layers: what opened each of them, and the
names that it declares so far. Every reference of a program stands in certain layers
(`Reference.ofStmts`), and how many of them lie between the reference and the one that declares its
name is its distance.

`FitsStmts` collects what a program has to satisfy for its distances to be meant: no layer declares
a name twice, a `return` stands in a function and has no value in an initializer, `this` and
`super` stand where a method can be called, and a branch or the body of a loop declares nothing of
its own. What is required of each reference is left open, as the parameter `K`.
-/

namespace LoxLang

/-- What opens a scope. -/
inductive Place where
  | block (span : Span)
  /-- A `for` loop. -/
  | loop (span : Span)
  /-- A function, with its parameters. -/
  | function (span : Span)
  /-- A class with a superclass that is named at this place; the scope declares `super`. -/
  | superclass (span : Span)
  /-- The method of a class at this place, bound to an instance; the scope declares `this`. -/
  | receiver (span : Span)
deriving DecidableEq, Repr

/-- A local scope that is open at a place. -/
structure Layer where
  /-- What opened it. -/
  place : Place
  /-- The names declared in it so far, the latest first. -/
  names : List String

/-- The local scopes that are open at a place, the innermost first. -/
abbrev Layers := List Layer

namespace Layers

/-- How many layers lie between a place and the one that declares the name. -/
def hops? (L : Layers) (name : String) : Option Nat := L.findIdx? (·.names.contains name)

/-- A name is found in the innermost layer that has it. -/
theorem hops?_cons (l : Layer) (L : Layers) (name : String) :
    hops? (l :: L) name = if name ∈ l.names then some 0 else (L.hops? name).map (· + 1) := by
  simp [hops?, List.findIdx?_cons]

/-- The name is declared in the innermost layer. -/
def declare (name : String) : Layers → Layers
  | [] => []
  | l :: L => { l with names := name :: l.names } :: L

/-- The innermost layer does not declare the name. -/
def Free (name : String) : Layers → Prop
  | [] => True
  | l :: _ => name ∉ l.names

/-- In the body of a function. -/
def function (f : FunDecl) (L : Layers) : Layers :=
  ⟨.function f.span, (f.params.map (·.text)).reverse⟩ :: L

/-- In a class, outside its methods. -/
def ofClass (parent : Option Name) (L : Layers) : Layers :=
  parent.elim L fun p ↦ ⟨.superclass p.span, ["super"]⟩ :: L

/-- Around a method of a class. -/
def ofMethod (f : FunDecl) (L : Layers) : Layers := ⟨.receiver f.span, ["this"]⟩ :: L

end Layers

/-- The name that a statement declares in the scope in which it stands. -/
def Stmt.declares : Stmt → Option String
  | varDecl _ name _ => some name
  | funDecl f => some f.name
  | classDecl _ name _ _ => some name
  | _ => none

/-- The layers after a statement. -/
def Layers.after (L : Layers) (s : Stmt) : Layers := s.declares.elim L L.declare

/-- The layers after a statement that may be missing. -/
def Layers.after? (L : Layers) (s : Option Stmt) : Layers := s.elim L L.after

/-! ### References -/

/-- A name that is read or written, and the layers in which that happens. -/
structure Reference where
  /-- Its place, which tells it apart from all others. -/
  span : Span
  /-- The name. -/
  name : String
  /-- The layers around it. -/
  layers : Layers

namespace Reference

/-- The entry of the reference among the distances, if it is local. -/
def entry? (r : Reference) : Option (Span × Nat) := (r.layers.hops? r.name).map (r.span, ·)

mutual

/-- The references of an expression. A value comes before the place it is assigned to. -/
def ofExpr (L : Layers) : Expr → List Reference
  | .literal _ _ => []
  | .var span name => [⟨span, name, L⟩]
  | .assign span name value => ofExpr L value ++ [⟨span, name, L⟩]
  | .step span _ _ name => [⟨span, name, L⟩]
  | .group _ inner => ofExpr L inner
  | .unary _ _ operand => ofExpr L operand
  | .binary _ _ left right => ofExpr L left ++ ofExpr L right
  | .call _ callee arguments => ofExpr L callee ++ ofExprs L arguments
  | .property _ object _ => ofExpr L object
  | .setProperty _ object _ value => ofExpr L value ++ ofExpr L object
  | .this span => [⟨span, "this", L⟩]
  | .super span _ => [⟨span, "super", L⟩]
  | .lambda f => ofFunction L f

/-- The references of several expressions. -/
def ofExprs (L : Layers) : List Expr → List Reference
  | [] => []
  | e :: rest => ofExpr L e ++ ofExprs L rest

/-- The references of an expression that may be missing. -/
def ofExpr? (L : Layers) : Option Expr → List Reference
  | none => []
  | some e => ofExpr L e

/-- The references of a function. -/
def ofFunction (L : Layers) : FunDecl → List Reference
  | .mk span name params body => ofStmts (L.function (.mk span name params body)) body

/-- The references of the methods of a class. -/
def ofMethods (L : Layers) : List FunDecl → List Reference
  | [] => []
  | f :: rest => ofFunction (L.ofMethod f) f ++ ofMethods L rest

/-- The references of a statement. -/
def ofStmt (L : Layers) : Stmt → List Reference
  | .expression _ value => ofExpr L value
  | .print _ value => ofExpr L value
  | .varDecl _ name value => ofExpr? (L.declare name) value
  | .funDecl f => ofFunction (L.declare f.name) f
  | .classDecl _ name parent methods =>
    parent.toList.map (fun p ↦ ⟨p.span, p.text, L.declare name⟩) ++
      ofMethods ((L.declare name).ofClass parent) methods
  | .block span body => ofStmts (⟨.block span, []⟩ :: L) body
  | .conditional _ condition yes no =>
    ofExpr L condition ++ ofStmt L yes ++ ofStmt? L no
  | .whileLoop _ condition body => ofExpr L condition ++ ofStmt L body
  | .forLoop span init condition step body =>
    let outer : Layers := ⟨.loop span, []⟩ :: L
    let inner := outer.after? init
    ofStmt? outer init ++ ofExpr? inner condition ++ ofExpr? inner step ++ ofStmt inner body
  | .returns _ value => ofExpr? L value

/-- The references of several statements. -/
def ofStmts (L : Layers) : List Stmt → List Reference
  | [] => []
  | s :: rest => ofStmt L s ++ ofStmts (L.after s) rest

/-- The references of a statement that may be missing. -/
def ofStmt? (L : Layers) : Option Stmt → List Reference
  | none => []
  | some s => ofStmt L s

end

end Reference

/-- All references of a program. -/
def Program.references (p : Program) : List Reference := Reference.ofStmts [] p

/-! ### Programs that fit -/

/-- Not one of the two words that are declared by classes. -/
def IsName (name : String) : Prop := name ≠ "this" ∧ name ≠ "super"

section Fits
variable (K : Reference → Prop)

mutual

/-- The expression may stand in these surroundings and layers. -/
def FitsExpr (cx : Surroundings) (L : Layers) : Expr → Prop
  | .literal _ _ => True
  | .var span name => K ⟨span, name, L⟩
  | .assign span name value => FitsExpr cx L value ∧ IsName name ∧ K ⟨span, name, L⟩
  | .step span _ _ name => IsName name ∧ K ⟨span, name, L⟩
  | .group _ inner => FitsExpr cx L inner
  | .unary _ _ operand => FitsExpr cx L operand
  | .binary _ _ left right => FitsExpr cx L left ∧ FitsExpr cx L right
  | .call _ callee arguments => FitsExpr cx L callee ∧ FitsExprs cx L arguments
  | .property _ object _ => FitsExpr cx L object
  | .setProperty _ object _ value => FitsExpr cx L object ∧ FitsExpr cx L value
  | .this span => cx.cls.isSome ∧ K ⟨span, "this", L⟩
  | .super span _ => cx.cls.any (·.inherits) ∧ K ⟨span, "super", L⟩
  | .lambda f => FitsFunction cx L .plain f

/-- All of the expressions may stand there. -/
def FitsExprs (cx : Surroundings) (L : Layers) : List Expr → Prop
  | [] => True
  | e :: rest => FitsExpr cx L e ∧ FitsExprs cx L rest

/-- The expression may stand there, if it is not missing. -/
def FitsExpr? (cx : Surroundings) (L : Layers) : Option Expr → Prop
  | none => True
  | some e => FitsExpr cx L e

/-- The function may stand there; its parameters have different names. -/
def FitsFunction (cx : Surroundings) (L : Layers) (kind : FunctionKind) : FunDecl → Prop
  | .mk span name params body =>
    (params.map (·.text)).Nodup ∧ (∀ p ∈ params, IsName p.text) ∧
      FitsStmts { cx with function := some kind } (L.function (.mk span name params body)) body

/-- All of the methods may stand in a class. -/
def FitsMethods (cx : Surroundings) (L : Layers) : List FunDecl → Prop
  | [] => True
  | f :: rest =>
    FitsFunction cx (L.ofMethod f) (Finding.methodKind f) f ∧ FitsMethods cx L rest

/-- The statement may stand there. -/
def FitsStmt (cx : Surroundings) (L : Layers) : Stmt → Prop
  | .expression _ value => FitsExpr cx L value
  | .print _ value => FitsExpr cx L value
  | .varDecl _ name value => L.Free name ∧ IsName name ∧ FitsExpr? cx (L.declare name) value
  | .funDecl f => L.Free f.name ∧ IsName f.name ∧ FitsFunction cx (L.declare f.name) .plain f
  | .classDecl _ name parent methods =>
    L.Free name ∧ IsName name ∧ (∀ p ∈ parent, K ⟨p.span, p.text, L.declare name⟩) ∧
      FitsMethods { cx with cls := some ⟨name, parent.isSome⟩ }
        ((L.declare name).ofClass parent) methods
  | .block span body => FitsStmts cx (⟨.block span, []⟩ :: L) body
  | .conditional _ condition yes no =>
    FitsExpr cx L condition ∧ (FitsStmt cx L yes ∧ yes.declares = none) ∧
      FitsStmt? cx L no ∧ no.bind Stmt.declares = none
  | .whileLoop _ condition body =>
    FitsExpr cx L condition ∧ FitsStmt cx L body ∧ body.declares = none
  | .forLoop span init condition step body =>
    let outer : Layers := ⟨.loop span, []⟩ :: L
    let inner := outer.after? init
    FitsStmt? cx outer init ∧ FitsExpr? cx inner condition ∧ FitsExpr? cx inner step ∧
      FitsStmt cx inner body ∧ body.declares = none
  | .returns _ value =>
    cx.function.isSome ∧ (value.isSome → cx.function ≠ some .initializer) ∧ FitsExpr? cx L value

/-- The statements may stand there, one after another. -/
def FitsStmts (cx : Surroundings) (L : Layers) : List Stmt → Prop
  | [] => True
  | s :: rest => FitsStmt cx L s ∧ FitsStmts cx (L.after s) rest

/-- The statement may stand there, if it is not missing. -/
def FitsStmt? (cx : Surroundings) (L : Layers) : Option Stmt → Prop
  | none => True
  | some s => FitsStmt cx L s

end

variable {K} {K' : Reference → Prop}

mutual

/-- What fits still fits if less is required of the references. -/
theorem FitsExpr.mono (hK : ∀ r, K r → K' r) {cx : Surroundings} {L : Layers} (e : Expr)
    (h : FitsExpr K cx L e) : FitsExpr K' cx L e :=
  match e, h with
  | .literal .., _ => trivial
  | .var .., h => hK _ h
  | .assign _ _ value, ⟨hv, hn, hr⟩ => ⟨FitsExpr.mono hK value hv, hn, hK _ hr⟩
  | .step .., ⟨hn, hr⟩ => ⟨hn, hK _ hr⟩
  | .group _ inner, h => FitsExpr.mono hK inner h
  | .unary _ _ operand, h => FitsExpr.mono hK operand h
  | .binary _ _ left right, ⟨hl, hr⟩ => ⟨FitsExpr.mono hK left hl, FitsExpr.mono hK right hr⟩
  | .call _ callee arguments, ⟨he, has⟩ =>
    ⟨FitsExpr.mono hK callee he, FitsExprs.mono hK arguments has⟩
  | .property _ object _, h => FitsExpr.mono hK object h
  | .setProperty _ object _ value, ⟨he, hv⟩ =>
    ⟨FitsExpr.mono hK object he, FitsExpr.mono hK value hv⟩
  | .this .., ⟨hcx, hr⟩ => ⟨hcx, hK _ hr⟩
  | .super .., ⟨hcx, hr⟩ => ⟨hcx, hK _ hr⟩
  | .lambda f, h => FitsFunction.mono hK f h

/-- What fits still does if more is known of the references. -/
theorem FitsExprs.mono (hK : ∀ r, K r → K' r) {cx : Surroundings} {L : Layers} (es : List Expr)
    (h : FitsExprs K cx L es) : FitsExprs K' cx L es :=
  match es, h with
  | [], _ => trivial
  | e :: rest, ⟨he, hes⟩ => ⟨FitsExpr.mono hK e he, FitsExprs.mono hK rest hes⟩

theorem FitsExpr?.mono (hK : ∀ r, K r → K' r) {cx : Surroundings} {L : Layers} (e : Option Expr)
    (h : FitsExpr? K cx L e) : FitsExpr? K' cx L e :=
  match e, h with
  | none, _ => trivial
  | some e, h => FitsExpr.mono hK e h

theorem FitsFunction.mono (hK : ∀ r, K r → K' r) {cx : Surroundings} {L : Layers}
    {kind : FunctionKind} (f : FunDecl) (h : FitsFunction K cx L kind f) :
    FitsFunction K' cx L kind f :=
  match f, h with
  | .mk _ _ _ body, ⟨hnodup, hnames, hbody⟩ => ⟨hnodup, hnames, FitsStmts.mono hK body hbody⟩

theorem FitsMethods.mono (hK : ∀ r, K r → K' r) {cx : Surroundings} {L : Layers}
    (fs : List FunDecl) (h : FitsMethods K cx L fs) : FitsMethods K' cx L fs :=
  match fs, h with
  | [], _ => trivial
  | f :: rest, ⟨hf, hfs⟩ => ⟨FitsFunction.mono hK f hf, FitsMethods.mono hK rest hfs⟩

theorem FitsStmt.mono (hK : ∀ r, K r → K' r) {cx : Surroundings} {L : Layers} (s : Stmt)
    (h : FitsStmt K cx L s) : FitsStmt K' cx L s :=
  match s, h with
  | .expression _ value, h => FitsExpr.mono hK value h
  | .print _ value, h => FitsExpr.mono hK value h
  | .varDecl _ _ value, ⟨hfree, hn, hv⟩ => ⟨hfree, hn, FitsExpr?.mono hK value hv⟩
  | .funDecl f, ⟨hfree, hn, hf⟩ => ⟨hfree, hn, FitsFunction.mono hK f hf⟩
  | .classDecl _ _ _ methods, ⟨hfree, hn, hparent, hms⟩ =>
    ⟨hfree, hn, fun p hp ↦ hK _ (hparent p hp), FitsMethods.mono hK methods hms⟩
  | .block _ body, h => FitsStmts.mono hK body h
  | .conditional _ condition yes no, ⟨hc, ⟨hyes, hdeclares⟩, hno, hdeclares'⟩ =>
    ⟨FitsExpr.mono hK condition hc, ⟨FitsStmt.mono hK yes hyes, hdeclares⟩,
      FitsStmt?.mono hK no hno, hdeclares'⟩
  | .whileLoop _ condition body, ⟨hc, hbody, hdeclares⟩ =>
    ⟨FitsExpr.mono hK condition hc, FitsStmt.mono hK body hbody, hdeclares⟩
  | .forLoop _ init condition step body, ⟨hi, hc, hu, hbody, hdeclares⟩ =>
    ⟨FitsStmt?.mono hK init hi, FitsExpr?.mono hK condition hc, FitsExpr?.mono hK step hu,
      FitsStmt.mono hK body hbody, hdeclares⟩
  | .returns _ value, ⟨hcx, hvalue, hv⟩ => ⟨hcx, hvalue, FitsExpr?.mono hK value hv⟩

theorem FitsStmts.mono (hK : ∀ r, K r → K' r) {cx : Surroundings} {L : Layers} (ss : List Stmt)
    (h : FitsStmts K cx L ss) : FitsStmts K' cx L ss :=
  match ss, h with
  | [], _ => trivial
  | s :: rest, ⟨hs, hss⟩ => ⟨FitsStmt.mono hK s hs, FitsStmts.mono hK rest hss⟩

theorem FitsStmt?.mono (hK : ∀ r, K r → K' r) {cx : Surroundings} {L : Layers} (s : Option Stmt)
    (h : FitsStmt? K cx L s) : FitsStmt? K' cx L s :=
  match s, h with
  | none, _ => trivial
  | some s, h => FitsStmt.mono hK s h

end

end Fits

end LoxLang
