import LoxLang.Proofs.Layers.Proper
import Mathlib.Data.List.Forall2

/-!
# Programs that are alike

Two programs are alike if the second is the first with other names for some of its local variables
and with some of its `for` loops written out. How far they may differ is a `Leeway`. At every place
a `Pairing` lists the local variables that are visible there, each with the name that it has in the
first program and the name that it has in the second; two references mean the same if their names
lead to the same entry (`Paired`).

This is a relation between texts and says nothing of how they run. It is also one that is kept: what
is alike to a proper program is proper (`Stmt.Alike.proper`), and has the same references as far as
their spans go (`Stmt.Alike.spans`).
-/

namespace LoxLang

/-- How far two programs may differ. -/
structure Leeway where
  /-- The names that may stand for each other. -/
  name : String → String → Prop
  /-- Whether `for` loops may be written out. -/
  loops : Prop
  refl (x : String) : name x x
  isName {x x' : String} : name x x' → IsName x → IsName x'

/-! ### Loops that are written out -/

/-- The places of what a `for` loop is written out as. -/
structure LoopSpans where
  /-- The block around all of it. -/
  block : Span
  /-- The `while` loop. -/
  loop : Span
  /-- The condition, if the loop had none. -/
  condition : Span
  /-- The block that is the body of the `while` loop. -/
  body : Span
  /-- The statement at the end of that block. -/
  step : Span

namespace LoopSpans

variable (places : LoopSpans)

/-- The condition of the `while` loop. -/
def test (condition : Option Expr) : Expr :=
  condition.getD (.literal places.condition (.bool true))

/-- The statement at the end of each round. -/
def steps (step : Option Expr) : List Stmt := (step.map (.expression places.step)).toList

/-- The body of the `while` loop: that of the `for` loop and then its step. -/
def round (step : Option Expr) (body : Stmt) : Stmt :=
  .block places.body (body :: places.steps step)

end LoopSpans

/-- A `for` loop that is written out: in a block of its own the first clause, and then a `while`
loop. -/
def Stmt.desugared (places : LoopSpans) (init : Option Stmt) (condition step : Option Expr)
    (body : Stmt) : Stmt :=
  .block places.block
    (init.toList ++ [.whileLoop places.loop (places.test condition) (places.round step body)])

/-! ### Pairs of names -/

/-- The names lead to the same entry of the list. If they lead to none, they are the same. -/
def Paired : List (String × String) → String → String → Prop
  | [], x, x' => x' = x
  | (y, y') :: names, x, x' => x = y ∧ x' = y' ∨ x ≠ y ∧ x' ≠ y' ∧ Paired names x x'

/-- The local variables that are visible at a place of two programs. -/
structure Pairing where
  /-- The names of each variable in the first program and in the second, the latest first. -/
  names : List (String × String)
  /-- Whether a declaration at this place is local. -/
  isLocal : Bool

namespace Pairing

/-- Outside of all scopes. -/
def top : Pairing := ⟨[], false⟩

/-- In an inner scope. -/
def inner (Γ : Pairing) : Pairing := { Γ with isLocal := true }

/-- With one more local variable. -/
def bind (x x' : String) (Γ : Pairing) : Pairing := ⟨(x, x') :: Γ.names, true⟩

/-- With the parameters of a function. -/
def bindAll (Γ : Pairing) : List Name → List Name → Pairing
  | p :: ps, p' :: ps' => (Γ.bind p.text p'.text).bindAll ps ps'
  | _, _ => Γ

/-- After a declaration. -/
def declare (x x' : String) (Γ : Pairing) : Pairing := if Γ.isLocal then Γ.bind x x' else Γ

/-- After two statements. -/
def after (Γ : Pairing) (s s' : Stmt) : Pairing :=
  match s.declares, s'.declares with
  | some x, some x' => Γ.declare x x'
  | _, _ => Γ

/-- After two statements that may be missing. -/
def after? (Γ : Pairing) : Option Stmt → Option Stmt → Pairing
  | some s, some s' => Γ.after s s'
  | _, _ => Γ

/-- In a class, outside its methods. -/
def ofClass (parent : Option Name) (Γ : Pairing) : Pairing :=
  if parent.isSome then Γ.bind "super" "super" else Γ

/-- The names refer to the same variable and may stand for each other. -/
structure Refers (ω : Leeway) (Γ : Pairing) (x x' : String) : Prop where
  paired : Paired Γ.names x x'
  name : ω.name x x'

end Pairing

open Pairing (Refers)

/-! ### Alike texts -/

section Alike

variable (ω : Leeway)

mutual

/-- The expressions are alike. -/
inductive Expr.Alike : Pairing → Expr → Expr → Prop
  | literal {Γ span v} : Expr.Alike Γ (.literal span v) (.literal span v)
  | var {Γ span x x'} (hx : Refers ω Γ x x') : Expr.Alike Γ (.var span x) (.var span x')
  | assign {Γ span x x' v v'} (hx : Refers ω Γ x x') (hv : Expr.Alike Γ v v') :
      Expr.Alike Γ (.assign span x v) (.assign span x' v')
  | step {Γ span side op x x'} (hx : Refers ω Γ x x') :
      Expr.Alike Γ (.step span side op x) (.step span side op x')
  | group {Γ span e e'} (he : Expr.Alike Γ e e') : Expr.Alike Γ (.group span e) (.group span e')
  | unary {Γ span op e e'} (he : Expr.Alike Γ e e') :
      Expr.Alike Γ (.unary span op e) (.unary span op e')
  | binary {Γ span op l l' r r'} (hl : Expr.Alike Γ l l') (hr : Expr.Alike Γ r r') :
      Expr.Alike Γ (.binary span op l r) (.binary span op l' r')
  | call {Γ span e e' es es'} (he : Expr.Alike Γ e e') (hes : Expr.AllAlike Γ es es') :
      Expr.Alike Γ (.call span e es) (.call span e' es')
  | property {Γ span e e' x} (he : Expr.Alike Γ e e') :
      Expr.Alike Γ (.property span e x) (.property span e' x)
  | setProperty {Γ span e e' x v v'} (he : Expr.Alike Γ e e') (hv : Expr.Alike Γ v v') :
      Expr.Alike Γ (.setProperty span e x v) (.setProperty span e' x v')
  | this {Γ span} (hthis : Paired Γ.names "this" "this") : Expr.Alike Γ (.this span) (.this span)
  | super {Γ span x} (hthis : Paired Γ.names "this" "this")
      (hsuper : Paired Γ.names "super" "super") : Expr.Alike Γ (.super span x) (.super span x)
  | lambda {Γ f f'} (hf : FunDecl.Alike Γ f f') : Expr.Alike Γ (.lambda f) (.lambda f')

/-- The expressions are alike, one by one. -/
inductive Expr.AllAlike : Pairing → List Expr → List Expr → Prop
  | nil {Γ} : Expr.AllAlike Γ [] []
  | cons {Γ e e' es es'} (he : Expr.Alike Γ e e') (hes : Expr.AllAlike Γ es es') :
      Expr.AllAlike Γ (e :: es) (e' :: es')

/-- The expressions are alike, or both are missing. -/
inductive Expr.Alike? : Pairing → Option Expr → Option Expr → Prop
  | none {Γ} : Expr.Alike? Γ none none
  | some {Γ e e'} (he : Expr.Alike Γ e e') : Expr.Alike? Γ (some e) (some e')

/-- The functions are alike. -/
inductive FunDecl.Alike : Pairing → FunDecl → FunDecl → Prop
  | mk {Γ span n ps ps' body body'}
      (hps : List.Forall₂ (fun p p' : Name ↦ p'.span = p.span ∧ ω.name p.text p'.text) ps ps')
      (hbody : Stmt.AllAlike (Γ.inner.bindAll ps ps') body body') :
      FunDecl.Alike Γ (.mk span n ps body) (.mk span n ps' body')

/-- The functions are alike as methods of a class, one by one. -/
inductive FunDecl.AllAlike : Pairing → List FunDecl → List FunDecl → Prop
  | nil {Γ} : FunDecl.AllAlike Γ [] []
  | cons {Γ f f' fs fs'} (hf : FunDecl.Alike (Γ.bind "this" "this") f f')
      (hfs : FunDecl.AllAlike Γ fs fs') : FunDecl.AllAlike Γ (f :: fs) (f' :: fs')

/-- The statements are alike. -/
inductive Stmt.Alike : Pairing → Stmt → Stmt → Prop
  | expression {Γ span v v'} (hv : Expr.Alike Γ v v') :
      Stmt.Alike Γ (.expression span v) (.expression span v')
  | print {Γ span v v'} (hv : Expr.Alike Γ v v') : Stmt.Alike Γ (.print span v) (.print span v')
  | varDecl {Γ span x x' v v'} (hx : Refers ω (Γ.declare x x') x x')
      (hv : Expr.Alike? (Γ.declare x x') v v') :
      Stmt.Alike Γ (.varDecl span x v) (.varDecl span x' v')
  | funDecl {Γ f f'} (hx : Paired (Γ.declare f.name f.name).names f.name f.name)
      (hf : FunDecl.Alike (Γ.declare f.name f.name) f f') : Stmt.Alike Γ (.funDecl f) (.funDecl f')
  | classDecl {Γ span n parent parent' ms ms'} (hx : Paired (Γ.declare n n).names n n)
      (hparent : Option.Rel (fun p p' : Name ↦
        p'.span = p.span ∧ Refers ω (Γ.declare n n) p.text p'.text) parent parent')
      (hms : FunDecl.AllAlike ((Γ.declare n n).ofClass parent) ms ms') :
      Stmt.Alike Γ (.classDecl span n parent ms) (.classDecl span n parent' ms')
  | block {Γ span body body'} (hbody : Stmt.AllAlike Γ.inner body body') :
      Stmt.Alike Γ (.block span body) (.block span body')
  | conditional {Γ span c c' yes yes' no no'} (hc : Expr.Alike Γ c c')
      (hyes : Stmt.Alike Γ yes yes') (hno : Stmt.Alike? Γ no no')
      (declares : yes.declares = none) (declares' : no.bind Stmt.declares = none) :
      Stmt.Alike Γ (.conditional span c yes no) (.conditional span c' yes' no')
  | whileLoop {Γ span c c' body body'} (hc : Expr.Alike Γ c c') (hbody : Stmt.Alike Γ body body')
      (declares : body.declares = none) :
      Stmt.Alike Γ (.whileLoop span c body) (.whileLoop span c' body')
  | forLoop {Γ span i i' c c' u u' body body'} (hi : Stmt.Alike? Γ.inner i i')
      (hc : Expr.Alike? (Γ.inner.after? i i') c c') (hu : Expr.Alike? (Γ.inner.after? i i') u u')
      (hbody : Stmt.Alike (Γ.inner.after? i i') body body') (declares : body.declares = none) :
      Stmt.Alike Γ (.forLoop span i c u body) (.forLoop span i' c' u' body')
  | desugared {Γ span places i i' c c' u u' body body'} (loops : ω.loops)
      (clause : i.all Stmt.isClause = true) (hi : Stmt.Alike? Γ.inner i i')
      (hc : Expr.Alike? (Γ.inner.after? i i') c c') (hu : Expr.Alike? (Γ.inner.after? i i') u u')
      (hbody : Stmt.Alike (Γ.inner.after? i i') body body') (declares : body.declares = none) :
      Stmt.Alike Γ (.forLoop span i c u body) (.desugared places i' c' u' body')
  | returns {Γ span v v'} (hv : Expr.Alike? Γ v v') :
      Stmt.Alike Γ (.returns span v) (.returns span v')

/-- The statements are alike, one after another. -/
inductive Stmt.AllAlike : Pairing → List Stmt → List Stmt → Prop
  | nil {Γ} : Stmt.AllAlike Γ [] []
  | cons {Γ s s' ss ss'} (hs : Stmt.Alike Γ s s') (hss : Stmt.AllAlike (Γ.after s s') ss ss') :
      Stmt.AllAlike Γ (s :: ss) (s' :: ss')

/-- The statements are alike, or both are missing. -/
inductive Stmt.Alike? : Pairing → Option Stmt → Option Stmt → Prop
  | none {Γ} : Stmt.Alike? Γ none none
  | some {Γ s s'} (hs : Stmt.Alike Γ s s') : Stmt.Alike? Γ (some s) (some s')

end

end Alike

variable {ω : Leeway} {Γ : Pairing}

namespace FunDecl.Alike

variable {f f' : FunDecl}

/-- Functions that are alike have the same name. -/
theorem name_eq (h : Alike ω Γ f f') : f'.name = f.name := by
  cases h
  rfl

theorem span_eq (h : Alike ω Γ f f') : f'.span = f.span := by
  cases h
  rfl

/-- Functions that are alike have as many parameters. -/
theorem arity_eq (h : Alike ω Γ f f') : f'.params.length = f.params.length := by
  cases h with
  | mk hps _ => exact hps.length_eq.symm

end FunDecl.Alike

/-- What is alike declares a name on both sides or on neither. -/
theorem Stmt.Alike.declares_eq_none {s s' : Stmt} (h : Stmt.Alike ω Γ s s') :
    s'.declares = none ↔ s.declares = none := by
  cases h with
  | varDecl | funDecl | classDecl => exact ⟨nofun, nofun⟩
  | _ => exact Iff.rfl

/-- What is alike to a first clause is one. -/
theorem Stmt.Alike.isClause {s s' : Stmt} (h : Stmt.Alike ω Γ s s') (hs : s.isClause = true) :
    s'.isClause = true := by
  cases h <;> exact hs

theorem Stmt.Alike?.all_isClause {s s' : Option Stmt} (h : Stmt.Alike? ω Γ s s')
    (hs : s.all Stmt.isClause = true) : s'.all Stmt.isClause = true := by
  cases h with
  | none => exact hs
  | some h => exact h.isClause hs

/-- Clauses that are alike declare names both, or neither does. -/
theorem Stmt.Alike?.declares_eq_none {s s' : Option Stmt} (h : Stmt.Alike? ω Γ s s') :
    s'.bind Stmt.declares = Option.none ↔ s.bind Stmt.declares = Option.none := by
  cases h with
  | none => exact Iff.rfl
  | some h => exact h.declares_eq_none

/-- A statement that declares nothing leaves the pairs of names alone. -/
theorem Pairing.after_eq_self (Γ : Pairing) {s s' : Stmt} (hs : s.declares = none) :
    Γ.after s s' = Γ := by
  unfold after
  rw [hs]

/-! ### What is alike to itself -/

/-- Every variable has the same name on both sides. -/
def Pairing.IsDiagonal (Γ : Pairing) : Prop := ∀ p ∈ Γ.names, p.2 = p.1

/-- A name is its own partner if every name is paired with itself. -/
theorem Paired.refl {names : List (String × String)} (h : ∀ p ∈ names, p.2 = p.1) (x : String) :
    Paired names x x := by
  induction names with
  | nil => rfl
  | cons p names ih =>
    obtain ⟨y, y'⟩ := p
    obtain ⟨hy, hnames⟩ := List.forall_mem_cons.1 h
    obtain rfl : y' = y := hy
    by_cases hx : x = y'
    · exact .inl ⟨hx, hx⟩
    · exact .inr ⟨hx, hx, ih hnames⟩

namespace Pairing.IsDiagonal

variable (h : Γ.IsDiagonal)
include h

theorem paired (x : String) : Paired Γ.names x x := .refl h x

/-- A name refers to the same on both sides. -/
theorem refers (x : String) : Refers ω Γ x x := ⟨h.paired x, ω.refl x⟩

theorem bind (x : String) : (Γ.bind x x).IsDiagonal := List.forall_mem_cons.2 ⟨rfl, h⟩

theorem superclass {parent : Option Name} :
    Option.Rel (fun p p' : Name ↦ p'.span = p.span ∧ Refers ω Γ p.text p'.text) parent parent := by
  cases parent with
  | none => exact .none
  | some p => exact .some ⟨rfl, h.refers p.text⟩

theorem inner : Γ.inner.IsDiagonal := h

theorem declare (x : String) : (Γ.declare x x).IsDiagonal := by
  unfold Pairing.declare
  split
  · exact h.bind x
  · exact h

/-- Parameters of the same names are paired with themselves. -/
theorem bindAll (ps : List Name) : (Γ.bindAll ps ps).IsDiagonal := by
  induction ps generalizing Γ with
  | nil => exact h
  | cons p ps ih => exact ih (h.bind p.text)

/-- After statements that declare the same name, every name is still paired with itself. -/
theorem after {s s' : Stmt} (hs : s'.declares = s.declares) : (Γ.after s s').IsDiagonal := by
  unfold Pairing.after
  rw [hs]
  cases s.declares with
  | none => exact h
  | some x => exact h.declare x

theorem after? {s s' : Option Stmt} (hs : s'.bind Stmt.declares = s.bind Stmt.declares) :
    (Γ.after? s s').IsDiagonal := by
  cases s with
  | none => exact h
  | some s =>
    cases s' with
    | none => exact h
    | some s' => exact h.after hs

/-- In a class every name is still paired with itself. -/
theorem ofClass (parent : Option Name) : (Γ.ofClass parent).IsDiagonal := by
  unfold Pairing.ofClass
  split
  · exact h.bind "super"
  · exact h

end Pairing.IsDiagonal

section Refl

variable {K : Reference → Prop}

mutual

/-- What fits is alike to itself. -/
theorem FitsExpr.alike {cx : Surroundings} {L : Layers} {Γ : Pairing} (hΓ : Γ.IsDiagonal)
    {e : Expr} (h : FitsExpr K cx L e) : Expr.Alike ω Γ e e :=
  match e, h with
  | .literal .., _ => .literal
  | .var .., _ => .var (hΓ.refers _)
  | .assign .., ⟨hv, _, _⟩ => .assign (hΓ.refers _) (FitsExpr.alike hΓ hv)
  | .step .., _ => .step (hΓ.refers _)
  | .group _ inner, h => .group (FitsExpr.alike (e := inner) hΓ h)
  | .unary _ _ operand, h => .unary (FitsExpr.alike (e := operand) hΓ h)
  | .binary .., ⟨hl, hr⟩ => .binary (FitsExpr.alike hΓ hl) (FitsExpr.alike hΓ hr)
  | .call .., ⟨he, hes⟩ => .call (FitsExpr.alike hΓ he) (FitsExprs.alike hΓ hes)
  | .property _ object _, h => .property (FitsExpr.alike (e := object) hΓ h)
  | .setProperty .., ⟨he, hv⟩ => .setProperty (FitsExpr.alike hΓ he) (FitsExpr.alike hΓ hv)
  | .this _, _ => .this (hΓ.paired _)
  | .super _ _, _ => .super (hΓ.paired _) (hΓ.paired _)
  | .lambda f, h => .lambda (FitsFunction.alike (f := f) hΓ h)

/-- What fits is like itself, where every name is paired with itself. -/
theorem FitsExprs.alike {cx : Surroundings} {L : Layers} {Γ : Pairing} (hΓ : Γ.IsDiagonal)
    {es : List Expr} (h : FitsExprs K cx L es) : Expr.AllAlike ω Γ es es :=
  match es, h with
  | [], _ => .nil
  | _ :: _, ⟨he, hes⟩ => .cons (FitsExpr.alike hΓ he) (FitsExprs.alike hΓ hes)

theorem FitsExpr?.alike {cx : Surroundings} {L : Layers} {Γ : Pairing} (hΓ : Γ.IsDiagonal)
    {e : Option Expr} (h : FitsExpr? K cx L e) : Expr.Alike? ω Γ e e :=
  match e, h with
  | none, _ => .none
  | some e, h => .some (FitsExpr.alike (e := e) hΓ h)

theorem FitsFunction.alike {cx : Surroundings} {L : Layers} {Γ : Pairing} (hΓ : Γ.IsDiagonal)
    {kind : FunctionKind} {f : FunDecl} (h : FitsFunction K cx L kind f) : FunDecl.Alike ω Γ f f :=
  match f, h with
  | .mk _ _ ps _, ⟨_, _, hbody⟩ =>
    .mk (List.forall₂_same.2 fun p _ ↦ ⟨rfl, ω.refl p.text⟩)
      (FitsStmts.alike (hΓ.inner.bindAll ps) hbody)

theorem FitsMethods.alike {cx : Surroundings} {L : Layers} {Γ : Pairing} (hΓ : Γ.IsDiagonal)
    {fs : List FunDecl} (h : FitsMethods K cx L fs) : FunDecl.AllAlike ω Γ fs fs :=
  match fs, h with
  | [], _ => .nil
  | _ :: _, ⟨hf, hfs⟩ => .cons (FitsFunction.alike (hΓ.bind "this") hf) (FitsMethods.alike hΓ hfs)

theorem FitsStmt.alike {cx : Surroundings} {L : Layers} {Γ : Pairing} (hΓ : Γ.IsDiagonal)
    {s : Stmt} (h : FitsStmt K cx L s) : Stmt.Alike ω Γ s s :=
  match s, h with
  | .expression _ value, h => .expression (FitsExpr.alike (e := value) hΓ h)
  | .print _ value, h => .print (FitsExpr.alike (e := value) hΓ h)
  | .varDecl _ x _, ⟨_, _, hv⟩ =>
    .varDecl ((hΓ.declare x).refers x) (FitsExpr?.alike (hΓ.declare x) hv)
  | .funDecl f, ⟨_, _, hf⟩ =>
    .funDecl ((hΓ.declare f.name).paired _) (FitsFunction.alike (hΓ.declare f.name) hf)
  | .classDecl _ n parent _, ⟨_, _, _, hms⟩ =>
    .classDecl ((hΓ.declare n).paired n) (hΓ.declare n).superclass
      (FitsMethods.alike ((hΓ.declare n).ofClass parent) hms)
  | .block _ body, h =>
    have hbody : Stmt.AllAlike ω Γ.inner body body := FitsStmts.alike hΓ.inner h
    .block hbody
  | .conditional .., ⟨hc, ⟨hyes, hdeclares⟩, hno, hdeclares'⟩ =>
    .conditional (FitsExpr.alike hΓ hc) (FitsStmt.alike hΓ hyes) (FitsStmt?.alike hΓ hno) hdeclares
      hdeclares'
  | .whileLoop .., ⟨hc, hbody, hdeclares⟩ =>
    .whileLoop (FitsExpr.alike hΓ hc) (FitsStmt.alike hΓ hbody) hdeclares
  | .forLoop _ init .., ⟨hi, hc, hu, hbody, hdeclares⟩ =>
    have hΓ' : (Γ.inner.after? init init).IsDiagonal := hΓ.inner.after? rfl
    .forLoop (FitsStmt?.alike hΓ.inner hi) (FitsExpr?.alike hΓ' hc) (FitsExpr?.alike hΓ' hu)
      (FitsStmt.alike hΓ' hbody) hdeclares
  | .returns .., ⟨_, _, hv⟩ => .returns (FitsExpr?.alike hΓ hv)

theorem FitsStmts.alike {cx : Surroundings} {L : Layers} {Γ : Pairing} (hΓ : Γ.IsDiagonal)
    {ss : List Stmt} (h : FitsStmts K cx L ss) : Stmt.AllAlike ω Γ ss ss :=
  match ss, h with
  | [], _ => .nil
  | _ :: _, ⟨hs, hss⟩ => .cons (FitsStmt.alike hΓ hs) (FitsStmts.alike (hΓ.after rfl) hss)

theorem FitsStmt?.alike {cx : Surroundings} {L : Layers} {Γ : Pairing} (hΓ : Γ.IsDiagonal)
    {s : Option Stmt} (h : FitsStmt? K cx L s) : Stmt.Alike? ω Γ s s :=
  match s, h with
  | none, _ => .none
  | some s, h => .some (FitsStmt.alike (s := s) hΓ h)

end

end Refl

/-! ### What is kept -/

/-- What holds of the members of one list holds of those of the other. -/
theorem forall_mem_of_forall₂ {α β : Type} {R : α → β → Prop} {P : α → Prop} {Q : β → Prop}
    {l : List α} {l' : List β} (h : List.Forall₂ R l l') (hR : ∀ {a b}, R a b → P a → Q b)
    (hl : ∀ a ∈ l, P a) : ∀ b ∈ l', Q b := by
  induction h with
  | nil => exact nofun
  | cons hab _ ih =>
    obtain ⟨ha, hl⟩ := List.forall_mem_cons.1 hl
    exact List.forall_mem_cons.2 ⟨hR hab ha, ih hl⟩

/-- Loops that are written out are proper. -/
theorem Stmt.Proper.desugared {places : LoopSpans} {i : Option Stmt} {c u : Option Expr}
    {body : Stmt} (hi : Stmt.Proper? i) (hc : Expr.Proper? c) (hu : Expr.Proper? u)
    (hbody : body.Proper) : (Stmt.desugared places i c u body).Proper := by
  have hsteps : Stmt.AllProper (places.steps u) := by
    cases u with
    | none => exact trivial
    | some u => exact ⟨hu, trivial⟩
  have htest : (places.test c).Proper := by
    cases c with
    | none => exact trivial
    | some c => exact hc
  have hloop : (Stmt.whileLoop places.loop (places.test c) (places.round u body)).Proper :=
    ⟨htest, ⟨hbody, hsteps⟩, rfl⟩
  cases i with
  | none => exact ⟨hloop, trivial⟩
  | some i => exact ⟨hi, hloop, trivial⟩

-- to be alike is a proposition, so the recursion is on the first of the two trees
mutual

/-- What is alike to something proper is proper. -/
theorem Expr.Alike.proper {Γ : Pairing} {e e' : Expr} (h : Expr.Alike ω Γ e e') (he : e.Proper) :
    e'.Proper :=
  match h, he with
  | .literal, _ | .var _, _ | .this _, _ | .super _ _, _ => trivial
  | .assign hx hv, ⟨hname, he⟩ => ⟨ω.isName hx.name hname, hv.proper he⟩
  | .step hx, hname => ω.isName hx.name hname
  | .group h, he | .unary h, he | .property h, he => h.proper he
  | .binary hl hr, ⟨he, he'⟩ => ⟨hl.proper he, hr.proper he'⟩
  | .call hcallee hes, ⟨he, he'⟩ => ⟨hcallee.proper he, hes.proper he'⟩
  | .setProperty hobject hv, ⟨he, he'⟩ => ⟨hobject.proper he, hv.proper he'⟩
  | .lambda hf, he => hf.proper he
termination_by structural e

/-- What is like a proper tree is proper. -/
theorem Expr.AllAlike.proper {Γ : Pairing} {es es' : List Expr} (h : Expr.AllAlike ω Γ es es')
    (hes : Expr.AllProper es) : Expr.AllProper es' :=
  match h, hes with
  | .nil, _ => trivial
  | .cons h h', ⟨he, hes⟩ => ⟨h.proper he, h'.proper hes⟩
termination_by structural es

theorem Expr.Alike?.proper {Γ : Pairing} {e e' : Option Expr} (h : Expr.Alike? ω Γ e e')
    (he : Expr.Proper? e) : Expr.Proper? e' :=
  match h, he with
  | .none, _ => trivial
  | .some h, he => h.proper he
termination_by structural e

theorem FunDecl.Alike.proper {Γ : Pairing} {f f' : FunDecl} (h : FunDecl.Alike ω Γ f f')
    (hf : f.Proper) : f'.Proper :=
  match h, hf with
  | .mk hps hbody, ⟨hnames, hproper⟩ =>
    ⟨forall_mem_of_forall₂ hps (fun hp hname ↦ ω.isName hp.2 hname) hnames, hbody.proper hproper⟩
termination_by structural f

theorem FunDecl.AllAlike.proper {Γ : Pairing} {fs fs' : List FunDecl}
    (h : FunDecl.AllAlike ω Γ fs fs') (hfs : FunDecl.AllProper fs) : FunDecl.AllProper fs' :=
  match h, hfs with
  | .nil, _ => trivial
  | .cons h h', ⟨hf, hfs⟩ => ⟨h.proper hf, h'.proper hfs⟩
termination_by structural fs

theorem Stmt.Alike.proper {Γ : Pairing} {s s' : Stmt} (h : Stmt.Alike ω Γ s s') (hs : s.Proper) :
    s'.Proper :=
  match h, hs with
  | .expression h, hs | .print h, hs => h.proper hs
  | .varDecl hx hv, ⟨hname, hs⟩ => ⟨ω.isName hx.name hname, hv.proper hs⟩
  | .funDecl _ hf, ⟨hname, hs⟩ => ⟨hf.name_eq ▸ hname, hf.proper hs⟩
  | .classDecl _ _ hms, ⟨hname, hs⟩ => ⟨hname, hms.proper hs⟩
  | .block hbody, hs => hbody.proper hs
  | .conditional hc hyes hno _ _, ⟨hs, ⟨hsyes, hdeclares⟩, hsno, hdeclares'⟩ =>
    ⟨hc.proper hs, ⟨hyes.proper hsyes, hyes.declares_eq_none.2 hdeclares⟩, hno.proper hsno,
      hno.declares_eq_none.2 hdeclares'⟩
  | .whileLoop hc hbody _, ⟨hs, hsbody, hdeclares⟩ =>
    ⟨hc.proper hs, hbody.proper hsbody, hbody.declares_eq_none.2 hdeclares⟩
  | .forLoop hi hc hu hbody _, ⟨⟨hsi, hclause⟩, hsc, hsu, hsbody, hdeclares⟩ =>
    ⟨⟨hi.proper hsi, hi.all_isClause hclause⟩, hc.proper hsc, hu.proper hsu, hbody.proper hsbody,
      hbody.declares_eq_none.2 hdeclares⟩
  | .desugared _ _ hi hc hu hbody _, ⟨⟨hsi, _⟩, hsc, hsu, hsbody, _⟩ =>
    .desugared (hi.proper hsi) (hc.proper hsc) (hu.proper hsu) (hbody.proper hsbody)
  | .returns h, hs => h.proper hs
termination_by structural s

theorem Stmt.AllAlike.proper {Γ : Pairing} {ss ss' : List Stmt} (h : Stmt.AllAlike ω Γ ss ss')
    (hss : Stmt.AllProper ss) : Stmt.AllProper ss' :=
  match h, hss with
  | .nil, _ => trivial
  | .cons h h', ⟨hs, hss⟩ => ⟨h.proper hs, h'.proper hss⟩
termination_by structural ss

theorem Stmt.Alike?.proper {Γ : Pairing} {s s' : Option Stmt} (h : Stmt.Alike? ω Γ s s')
    (hs : Stmt.Proper? s) : Stmt.Proper? s' :=
  match h, hs with
  | .none, _ => trivial
  | .some h, hs => h.proper hs
termination_by structural s

end

/-- The parts of a loop, of which the last two change places. -/
theorem perm_loop {α : Type} {i i' c c' u u' b b' : List α} (hi : i'.Perm i) (hc : c'.Perm c)
    (hu : u'.Perm u) (hb : b'.Perm b) : (i' ++ (c' ++ (b' ++ u'))).Perm (i ++ c ++ u ++ b) := by
  rw [List.append_assoc, List.append_assoc]
  exact hi.append (hc.append ((hb.append hu).trans List.perm_append_comm))

/-- The references have the same spans, perhaps in another order. -/
def SameSpans (refs refs' : List Reference) : Prop :=
  (refs'.map (·.span)).Perm (refs.map (·.span))

namespace SameSpans

variable {refs refs' others others' : List Reference}

theorem nil : SameSpans [] [] := List.Perm.refl []

theorem one {r r' : Reference} (h : r'.span = r.span) : SameSpans [r] [r'] := .of_eq (by simp [h])

/-- The references of two parts have the same spans if those of each have. -/
theorem append (h : SameSpans refs refs') (h' : SameSpans others others') :
    SameSpans (refs ++ others) (refs' ++ others') := by
  unfold SameSpans
  rw [List.map_append, List.map_append]
  exact List.Perm.append h h'

/-- The references in the step of a loop may be listed before those in the body or after them. -/
theorem loop {ri ri' rc rc' ru ru' rb rb' : List Reference} (hi : SameSpans ri ri')
    (hc : SameSpans rc rc') (hu : SameSpans ru ru') (hb : SameSpans rb rb') :
    SameSpans (ri ++ rc ++ ru ++ rb) (ri' ++ (rc' ++ (rb' ++ ru'))) := by
  unfold SameSpans
  simp only [List.map_append]
  exact perm_loop hi hc hu hb

end SameSpans

/-- The references of a loop that is written out are those of its parts, in certain layers. -/
theorem Reference.ofStmt_desugared (L : Layers) (places : LoopSpans) (i : Option Stmt)
    (c u : Option Expr) (body : Stmt) : ∃ Lᵢ Lc Lu Lb, ofStmt L (.desugared places i c u body) =
      ofStmt? Lᵢ i ++ (ofExpr? Lc c ++ (ofStmt Lb body ++ ofExpr? Lu u)) := by
  have hsteps (L : Layers) : ofStmts L (places.steps u) = ofExpr? L u := by
    cases u with
    | none => rfl
    | some u => exact List.append_nil _
  have htest (L : Layers) : ofExpr L (places.test c) = ofExpr? L c := by
    cases c <;> rfl
  have hloop (L : Layers) :
      ofStmts L [.whileLoop places.loop (places.test c) (places.round u body)] =
      ofExpr? L c ++ (ofStmt (⟨.block places.body, []⟩ :: L) body ++
        ofExpr? (Layers.after (⟨.block places.body, []⟩ :: L) body) u) := by
    simp only [LoopSpans.round, ofStmts, ofStmt, hsteps, htest, List.append_nil]
  cases i with
  | none => exact ⟨L, _, _, _, hloop _⟩
  | some i => exact ⟨_, _, _, _, congrArg (ofStmt _ i ++ ·) (hloop _)⟩

mutual

/-- Alike expressions have references with the same spans. -/
theorem Expr.Alike.spans {Γ : Pairing} {e e' : Expr} (h : Expr.Alike ω Γ e e') (L L' : Layers) :
    SameSpans (Reference.ofExpr L e) (Reference.ofExpr L' e') :=
  match h with
  | .literal => .nil
  | .var _ | .step _ | .this _ | .super _ _ => .one rfl
  | .assign _ hv => (hv.spans L L').append (.one rfl)
  | .group h | .unary h | .property h => h.spans L L'
  | .binary hl hr => (hl.spans L L').append (hr.spans L L')
  | .call he hes => (he.spans L L').append (hes.spans L L')
  | .setProperty he hv => (hv.spans L L').append (he.spans L L')
  | .lambda hf => hf.spans L L'
termination_by structural e

/-- Trees that are alike have references of the same spans, in whatever layers. -/
theorem Expr.AllAlike.spans {Γ : Pairing} {es es' : List Expr} (h : Expr.AllAlike ω Γ es es')
    (L L' : Layers) : SameSpans (Reference.ofExprs L es) (Reference.ofExprs L' es') :=
  match h with
  | .nil => .nil
  | .cons he hes => (he.spans L L').append (hes.spans L L')
termination_by structural es

theorem Expr.Alike?.spans {Γ : Pairing} {e e' : Option Expr} (h : Expr.Alike? ω Γ e e')
    (L L' : Layers) : SameSpans (Reference.ofExpr? L e) (Reference.ofExpr? L' e') :=
  match h with
  | .none => .nil
  | .some he => he.spans L L'
termination_by structural e

theorem FunDecl.Alike.spans {Γ : Pairing} {f f' : FunDecl} (h : FunDecl.Alike ω Γ f f')
    (L L' : Layers) : SameSpans (Reference.ofFunction L f) (Reference.ofFunction L' f') :=
  match h with
  | .mk _ hbody => hbody.spans _ _
termination_by structural f

theorem FunDecl.AllAlike.spans {Γ : Pairing} {fs fs' : List FunDecl}
    (h : FunDecl.AllAlike ω Γ fs fs') (L L' : Layers) :
    SameSpans (Reference.ofMethods L fs) (Reference.ofMethods L' fs') :=
  match h with
  | .nil => .nil
  | .cons hf hfs => (hf.spans _ _).append (hfs.spans L L')
termination_by structural fs

theorem Stmt.Alike.spans {Γ : Pairing} {s s' : Stmt} (h : Stmt.Alike ω Γ s s') (L L' : Layers) :
    SameSpans (Reference.ofStmt L s) (Reference.ofStmt L' s') :=
  match h with
  | .expression h | .print h => h.spans L L'
  | .varDecl _ h => h.spans _ _
  | .funDecl _ h => h.spans _ _
  | .classDecl _ .none hms => hms.spans _ _
  | .classDecl _ (.some hp) hms => SameSpans.append (.one hp.1) (hms.spans _ _)
  | .block hbody => hbody.spans _ _
  | .conditional hc hyes hno _ _ => ((hc.spans _ _).append (hyes.spans _ _)).append (hno.spans _ _)
  | .whileLoop hc hbody _ => (hc.spans _ _).append (hbody.spans _ _)
  | .forLoop hi hc hu hbody _ =>
    (((hi.spans _ _).append (hc.spans _ _)).append (hu.spans _ _)).append (hbody.spans _ _)
  | .desugared _ _ hi hc hu hbody _ => by
    -- the step comes before the body on one side and after it on the other
    obtain ⟨Lᵢ, Lc, Lu, Lb, hrefs⟩ := Reference.ofStmt_desugared L' _ _ _ _ _
    rw [hrefs]
    exact .loop (hi.spans _ Lᵢ) (hc.spans _ Lc) (hu.spans _ Lu) (hbody.spans _ Lb)
  | .returns h => h.spans L L'
termination_by structural s

theorem Stmt.AllAlike.spans {Γ : Pairing} {ss ss' : List Stmt} (h : Stmt.AllAlike ω Γ ss ss')
    (L L' : Layers) : SameSpans (Reference.ofStmts L ss) (Reference.ofStmts L' ss') :=
  match h with
  | .nil => .nil
  | .cons hs hss => (hs.spans _ _).append (hss.spans _ _)
termination_by structural ss

theorem Stmt.Alike?.spans {Γ : Pairing} {s s' : Option Stmt} (h : Stmt.Alike? ω Γ s s')
    (L L' : Layers) : SameSpans (Reference.ofStmt? L s) (Reference.ofStmt? L' s') :=
  match h with
  | .none => .nil
  | .some hs => hs.spans _ _
termination_by structural s

end

end LoxLang
