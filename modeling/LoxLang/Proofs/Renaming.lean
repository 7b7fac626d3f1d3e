import LoxLang.Proofs.Alike

/-!
# Local variables with other names

A local variable, one of a `var` statement or a parameter, is given a new name that occurs nowhere
in the program (`Program.rename`). The declaration is told by its place, and the references that get
the new name are those whose distance leads to the scope of the declaration. Spans stay as they are.
The result is alike to the program (`FitsStmts.rename_alike`): at every place the names of the two
programs lead to the same variable.
-/

namespace LoxLang

/-! ### Names that do not occur -/

section Avoids

variable (y : String)

mutual

/-- The name does not occur as that of a variable, a function or a class. -/
def Expr.Avoids : Expr → Prop
  | .literal _ _ | .this _ | .super _ _ => True
  | .var _ x | .step _ _ _ x => x ≠ y
  | .assign _ x v => x ≠ y ∧ v.Avoids
  | .group _ e | .unary _ _ e | .property _ e _ => e.Avoids
  | .binary _ _ l r => l.Avoids ∧ r.Avoids
  | .call _ e es => e.Avoids ∧ Expr.AllAvoid es
  | .setProperty _ e _ v => e.Avoids ∧ v.Avoids
  | .lambda f => f.Avoids

@[inherit_doc Expr.Avoids]
def Expr.AllAvoid : List Expr → Prop
  | [] => True
  | e :: es => e.Avoids ∧ Expr.AllAvoid es

@[inherit_doc Expr.Avoids]
def Expr.Avoids? : Option Expr → Prop
  | none => True
  | some e => e.Avoids

@[inherit_doc Expr.Avoids]
def FunDecl.Avoids : FunDecl → Prop
  | .mk _ _ ps body => (∀ p ∈ ps, p.text ≠ y) ∧ Stmt.AllAvoid body

@[inherit_doc Expr.Avoids]
def FunDecl.AllAvoid : List FunDecl → Prop
  | [] => True
  | f :: fs => f.Avoids ∧ FunDecl.AllAvoid fs

@[inherit_doc Expr.Avoids]
def Stmt.Avoids : Stmt → Prop
  | .expression _ v | .print _ v => v.Avoids
  | .varDecl _ x v => x ≠ y ∧ Expr.Avoids? v
  | .funDecl f => f.name ≠ y ∧ f.Avoids
  | .classDecl _ n parent fs => n ≠ y ∧ (∀ p ∈ parent, p.text ≠ y) ∧ FunDecl.AllAvoid fs
  | .block _ body => Stmt.AllAvoid body
  | .conditional _ c yes no => c.Avoids ∧ yes.Avoids ∧ Stmt.Avoids? no
  | .whileLoop _ c body => c.Avoids ∧ body.Avoids
  | .forLoop _ i c u body => Stmt.Avoids? i ∧ Expr.Avoids? c ∧ Expr.Avoids? u ∧ body.Avoids
  | .returns _ v => Expr.Avoids? v

@[inherit_doc Expr.Avoids]
def Stmt.AllAvoid : List Stmt → Prop
  | [] => True
  | s :: ss => s.Avoids ∧ Stmt.AllAvoid ss

@[inherit_doc Expr.Avoids]
def Stmt.Avoids? : Option Stmt → Prop
  | none => True
  | some s => s.Avoids

end

end Avoids

/-! ### Renaming -/

/-- A declaration of a local variable, as a `var` statement or a parameter, and its new name. -/
structure Renaming where
  /-- The place of the declaration. -/
  place : Span
  /-- What it declares. -/
  old : String
  /-- What it is to declare. -/
  new : String
  isName_old : IsName old
  isName_new : IsName new

/-- What is seen at a place of a program in which a declaration is renamed. -/
structure View where
  /-- The layers of the place, with the names before the renaming. -/
  layers : Layers
  /-- How many of them lie between the place and the one with the declaration, once that has been
  passed. -/
  hops : Option Nat

/-- Outside of all scopes. -/
def View.top : View := ⟨[], none⟩

/-- Whether a declaration at the place is local. -/
def View.isLocal (V : View) : Bool := !V.layers.isEmpty

/-- In a new innermost scope. -/
def View.enter (place : Place) (V : View) : View := ⟨⟨place, []⟩ :: V.layers, V.hops.map (· + 1)⟩

/-- After a declaration that keeps its name. -/
def View.declare (x : String) (V : View) : View := { V with layers := V.layers.declare x }

/-- In a class, outside its methods. -/
def View.ofClass (parent : Option Name) (V : View) : View :=
  parent.elim V fun p ↦ (V.enter (.superclass p.span)).declare "super"

/-- Around a method of a class. -/
def View.ofMethod (f : FunDecl) (V : View) : View := (V.enter (.receiver f.span)).declare "this"

section Rename

variable (ρ : Renaming)

/-- The declaration is the one that is renamed. -/
def Renaming.Picks (isLocal : Bool) (span : Span) (x : String) : Prop :=
  isLocal = true ∧ span = ρ.place ∧ x = ρ.old

instance (isLocal : Bool) (span : Span) (x : String) : Decidable (ρ.Picks isLocal span x) :=
  inferInstanceAs (Decidable (_ ∧ _ ∧ _))

/-- What a `var` statement or a parameter at this place declares afterwards. -/
def Renaming.declared (isLocal : Bool) (span : Span) (x : String) : String :=
  if ρ.Picks isLocal span x then ρ.new else x

namespace View

/-- The name of a reference afterwards: the new one, if it has the old name and its distance leads
to the scope of the declaration. -/
def image (V : View) (x : String) : String :=
  if x = ρ.old ∧ V.hops.isSome = true ∧ V.layers.hops? x = V.hops then ρ.new else x

/-- After the declaration of a variable. -/
def declareVar (span : Span) (x : String) (V : View) : View :=
  ⟨V.layers.declare x, if ρ.Picks V.isLocal span x then some 0 else V.hops⟩

/-- After the parameters of a function. -/
def parameters (V : View) : List Name → View
  | [] => V
  | p :: ps => (V.declareVar ρ p.span p.text).parameters ps

/-- In the body of a function. -/
def ofFunction (f : FunDecl) (V : View) : View :=
  (V.enter (.function f.span)).parameters ρ f.params

/-- After a statement. -/
def after (V : View) : Stmt → View
  | .varDecl span x _ => V.declareVar ρ span x
  | .funDecl f => V.declare f.name
  | .classDecl _ n _ _ => V.declare n
  | _ => V

/-- After a statement that may be missing. -/
def after? (V : View) : Option Stmt → View
  | none => V
  | some s => V.after ρ s

end View

mutual

/-- The expression after the renaming, where the view is that of its place. -/
def Expr.rename (V : View) : Expr → Expr
  | .literal span v => .literal span v
  | .var span x => .var span (V.image ρ x)
  | .assign span x v => .assign span (V.image ρ x) (v.rename V)
  | .step span side op x => .step span side op (V.image ρ x)
  | .group span e => .group span (e.rename V)
  | .unary span op e => .unary span op (e.rename V)
  | .binary span op l r => .binary span op (l.rename V) (r.rename V)
  | .call span e es => .call span (e.rename V) (Expr.renameAll V es)
  | .property span e x => .property span (e.rename V) x
  | .setProperty span e x v => .setProperty span (e.rename V) x (v.rename V)
  | .this span => .this span
  | .super span x => .super span x
  | .lambda f => .lambda (f.rename V)

@[inherit_doc Expr.rename]
def Expr.renameAll (V : View) : List Expr → List Expr
  | [] => []
  | e :: es => e.rename V :: Expr.renameAll V es

@[inherit_doc Expr.rename]
def Expr.rename? (V : View) : Option Expr → Option Expr
  | none => none
  | some e => some (e.rename V)

/-- The function after the renaming, where the view is that of its place. -/
def FunDecl.rename (V : View) : FunDecl → FunDecl
  | .mk span n ps body =>
    .mk span n (ps.map fun p ↦ ⟨ρ.declared true p.span p.text, p.span⟩)
      (Stmt.renameAll (V.ofFunction ρ (.mk span n ps body)) body)

/-- The methods of a class after the renaming, where the view is that in the class. -/
def FunDecl.renameAll (V : View) : List FunDecl → List FunDecl
  | [] => []
  | f :: fs => f.rename (V.ofMethod f) :: FunDecl.renameAll V fs

/-- The statement after the renaming, where the view is that of its place. -/
def Stmt.rename (V : View) : Stmt → Stmt
  | .expression span v => .expression span (v.rename V)
  | .print span v => .print span (v.rename V)
  | .varDecl span x v =>
    .varDecl span (ρ.declared V.isLocal span x) (Expr.rename? (V.declareVar ρ span x) v)
  | .funDecl f => .funDecl (f.rename (V.declare f.name))
  | .classDecl span n parent fs =>
    .classDecl span n (parent.map fun p ↦ ⟨(V.declare n).image ρ p.text, p.span⟩)
      (FunDecl.renameAll ((V.declare n).ofClass parent) fs)
  | .block span body => .block span (Stmt.renameAll (V.enter (.block span)) body)
  | .conditional span c yes no =>
    .conditional span (c.rename V) (yes.rename V) (Stmt.rename? V no)
  | .whileLoop span c body => .whileLoop span (c.rename V) (body.rename V)
  | .forLoop span i c u body =>
    let outer := V.enter (.loop span)
    let inner := outer.after? ρ i
    .forLoop span (Stmt.rename? outer i) (Expr.rename? inner c) (Expr.rename? inner u)
      (body.rename inner)
  | .returns span v => .returns span (Expr.rename? V v)

/-- The statements after the renaming, where the view is that of the first of them. -/
def Stmt.renameAll (V : View) : List Stmt → List Stmt
  | [] => []
  | s :: ss => s.rename V :: Stmt.renameAll (V.after ρ s) ss

@[inherit_doc Stmt.rename]
def Stmt.rename? (V : View) : Option Stmt → Option Stmt
  | none => none
  | some s => some (s.rename V)

end

/-- The program after the renaming. -/
def Program.rename (p : Program) : Program := Stmt.renameAll ρ .top p

end Rename

/-- How far a program and its renaming may differ. -/
def Renaming.leeway (ρ : Renaming) : Leeway where
  name x x' := x' = x ∨ x = ρ.old ∧ x' = ρ.new
  loops := False
  refl _ := .inl rfl
  isName {_ _} h hx := h.elim (fun h ↦ h ▸ hx) fun h ↦ h.2 ▸ ρ.isName_new

/-- A declaration keeps its name, or it is the one that gets the new name. -/
theorem Renaming.declared_cases (ρ : Renaming) (isLocal : Bool) (span : Span) (x : String) :
    ρ.leeway.name x (ρ.declared isLocal span x) := by
  unfold declared
  split
  · rename_i h
    exact .inr ⟨h.2.2, rfl⟩
  · exact .inl rfl

/-! ### Views -/

/-- A name that has just been declared is in the innermost layer. -/
theorem Layers.hops?_declare {L : Layers} (hL : L.isEmpty = false) (x y : String) :
    (L.declare x).hops? y = if y = x then some 0 else L.hops? y := by
  cases L with
  | nil => cases hL
  | cons l L =>
    rw [declare, hops?_cons, hops?_cons]
    by_cases hx : y = x <;> simp [hx]

theorem Layers.not_free_declare {L : Layers} (hL : L.isEmpty = false) {x : String} :
    ¬ (L.declare x).Free x := by
  cases L with
  | nil => cases hL
  | cons l L => exact fun h ↦ h List.mem_cons_self

/-- A name is free still after another one has been declared. -/
theorem Layers.Free.declare {L : Layers} {x y : String} (h : L.Free y) (hxy : y ≠ x) :
    (L.declare x).Free y := by
  cases L with
  | nil => exact trivial
  | cons l L => exact fun hy ↦ (List.mem_cons.1 hy).elim hxy h

theorem Layers.Free.of_declare {L : Layers} {x y : String} (h : (L.declare x).Free y) :
    L.Free y := by
  cases L with
  | nil => exact h
  | cons l L => exact fun hy ↦ h (List.mem_cons_of_mem _ hy)

namespace View

variable {ρ : Renaming} {V : View} {Γ : Pairing}

/-- A name keeps its name, or it is the old one and becomes the new one. -/
theorem image_cases (ρ : Renaming) (V : View) (x : String) : ρ.leeway.name x (V.image ρ x) := by
  unfold image
  split
  · rename_i h
    exact .inr ⟨h.1, rfl⟩
  · exact .inl rfl

theorem image_of_ne {x : String} (hx : x ≠ ρ.old) : V.image ρ x = x :=
  if_neg fun h ↦ hx h.1

/-- A name that is neither the old nor the new one is the image of itself alone. -/
theorem image_ne {x y : String} (hx : x ≠ y) (hy : y ≠ ρ.new) : V.image ρ x ≠ y := by
  rcases image_cases ρ V x with h | ⟨-, h⟩ <;> rw [h]
  · exact hx
  · exact hy.symm

theorem isLocal_declare (x : String) : (V.declare x).isLocal = V.isLocal := by
  obtain ⟨_ | _, _⟩ := V <;> rfl

theorem layers_of_isLocal (h : V.isLocal = true) : V.layers.isEmpty = false := by
  unfold isLocal at h
  rwa [Bool.not_eq_true'] at h

/-- A declaration that keeps its name changes no image but that of its own name. -/
theorem image_declare {z : String} (hlocal : V.isLocal = true)
    (hz : z = ρ.old → V.hops ≠ some 0) (x : String) :
    (V.declare z).image ρ x = if x = z then z else V.image ρ x := by
  unfold image declare
  simp only [Layers.hops?_declare (layers_of_isLocal hlocal)]
  by_cases hx : x = z
  · rw [if_pos hx, if_pos hx, if_neg, hx]
    rintro ⟨hold, -, hhops⟩
    exact hz (hx ▸ hold) hhops.symm
  · rw [if_neg hx, if_neg hx]

/-- An empty scope changes no image. -/
theorem image_enter (place : Place) (x : String) : (V.enter place).image ρ x = V.image ρ x := by
  have hhops : Layers.hops? (⟨place, []⟩ :: V.layers) x = (V.layers.hops? x).map (· + 1) := by
    rw [Layers.hops?_cons]
    simp
  have hmap : (V.layers.hops? x).map (· + 1) = V.hops.map (· + 1) ↔ V.layers.hops? x = V.hops :=
    (Option.map_injective fun _ _ ↦ Nat.succ.inj).eq_iff
  unfold image enter
  simp only [hhops, hmap, Option.isSome_map]

/-! #### Layers -/

/-- The view after the parameters of a function has them in its innermost layer. -/
theorem layers_parameters {ps : List Name} {l : Layer} {L : Layers} (hV : V.layers = l :: L) :
    (V.parameters ρ ps).layers = { l with names := (ps.map (·.text)).reverse ++ l.names } :: L := by
  induction ps generalizing V l with
  | nil => exact hV
  | cons p ps ih =>
    have hdeclare : (V.declareVar ρ p.span p.text).layers =
        { l with names := p.text :: l.names } :: L := by
      unfold declareVar
      rw [hV]
      rfl
    rw [parameters, ih hdeclare]
    simp

/-- The view in a function has the layers in it. -/
theorem layers_ofFunction (ρ : Renaming) (f : FunDecl) :
    (V.ofFunction ρ f).layers = V.layers.function f := by
  unfold ofFunction
  rw [layers_parameters (V := V.enter (.function f.span)) rfl, List.append_nil]
  rfl

/-- The view after a statement has the layers after it. -/
theorem layers_after (ρ : Renaming) (s : Stmt) : (V.after ρ s).layers = V.layers.after s := by
  cases s <;> rfl

theorem layers_after? (ρ : Renaming) (s : Option Stmt) :
    (V.after? ρ s).layers = V.layers.after? s := by
  cases s with
  | none => rfl
  | some s => exact layers_after ρ s

/-- The view in a class has the layers in it. -/
theorem layers_ofClass (parent : Option Name) :
    (V.ofClass parent).layers = V.layers.ofClass parent := by
  cases parent <;> rfl

/-! #### Pairings -/

/-- The view goes with the pairing: each name and its image refer to the same variable. -/
structure Pairs (ρ : Renaming) (V : View) (Γ : Pairing) : Prop where
  isLocal : Γ.isLocal = V.isLocal
  paired : ∀ x, x ≠ ρ.new → Paired Γ.names x (V.image ρ x)
  declares : V.hops = some 0 → ¬ V.layers.Free ρ.old

namespace Pairs

theorem top (ρ : Renaming) : Pairs ρ .top .top where
  isLocal := rfl
  paired _ _ := if_neg fun h ↦ Bool.false_ne_true h.2.1
  declares h := by cases h

variable (h : Pairs ρ V Γ)
include h

/-- A name and its image refer to the same variable. -/
theorem refers {x : String} (hx : x ≠ ρ.new) : Γ.Refers ρ.leeway x (V.image ρ x) :=
  ⟨h.paired x hx, image_cases ρ V x⟩

/-- A word that classes declare is never renamed. -/
theorem word {x : String} (hx : ¬ IsName x) : Paired Γ.names x x := by
  have himage : V.image ρ x = x := image_of_ne fun hold ↦ hx (hold ▸ ρ.isName_old)
  have hpaired := h.paired x fun hnew ↦ hx (hnew ▸ ρ.isName_new)
  rwa [himage] at hpaired

/-- In a new innermost scope. -/
theorem enter (place : Place) : Pairs ρ (V.enter place) Γ.inner where
  isLocal := rfl
  paired x hx := by
    rw [image_enter]
    exact h.paired x hx
  declares hhops := by
    cases hV : V.hops <;> simp [View.enter, hV] at hhops

/-- After a declaration that keeps its name. -/
theorem declare {z : String} (hfree : V.layers.Free z) (hz : z ≠ ρ.new) :
    Pairs ρ (V.declare z) (Γ.declare z z) := by
  have hlocal := h.isLocal
  unfold Pairing.declare
  cases hΓ : Γ.isLocal with
  | false =>
    have hV : V.declare z = V := by
      obtain ⟨_ | _, _⟩ := V
      · rfl
      · cases hΓ.symm.trans hlocal
    rw [hV]
    exact h
  | true =>
    rw [hΓ] at hlocal
    refine ⟨(isLocal_declare z).symm ▸ hlocal, fun x hx ↦ ?_, fun hhops hold ↦ ?_⟩
    · rw [image_declare hlocal.symm fun hold hhops ↦ h.declares hhops (hold ▸ hfree)]
      by_cases hxz : x = z
      · exact .inl ⟨hxz, if_pos hxz⟩
      · rw [if_neg hxz]
        exact .inr ⟨hxz, image_ne hxz hz, h.paired x hx⟩
    · exact h.declares hhops (Layers.Free.of_declare hold)

/-- After the declaration of a variable, which may be the one that is renamed. -/
theorem declareVar (span : Span) {z : String} (hfree : V.layers.Free z) (hz : z ≠ ρ.new) :
    Pairs ρ (V.declareVar ρ span z) (Γ.declare z (ρ.declared V.isLocal span z)) := by
  unfold Renaming.declared View.declareVar
  by_cases hpicks : ρ.Picks V.isLocal span z
  · obtain ⟨hlocal, -, rfl⟩ := id hpicks
    rw [if_pos hpicks, if_pos hpicks]
    unfold Pairing.declare
    rw [h.isLocal, hlocal]
    have himage (x : String) : image ρ ⟨V.layers.declare ρ.old, some 0⟩ x =
        if x = ρ.old then ρ.new else x := by
      by_cases hx : x = ρ.old
      · unfold image
        rw [Layers.hops?_declare (layers_of_isLocal hlocal)]
        simp [hx]
      · rw [if_neg hx, image_of_ne hx]
    refine ⟨(isLocal_declare ρ.old (V := V)).symm ▸ hlocal.symm, fun x hx ↦ ?_, fun _ hold ↦ ?_⟩
    · rw [himage]
      by_cases hxold : x = ρ.old
      · exact .inl ⟨hxold, if_pos hxold⟩
      · rw [if_neg hxold]
        have hpaired := h.paired x hx
        rw [image_of_ne hxold] at hpaired
        exact .inr ⟨hxold, hx, hpaired⟩
    · exact Layers.not_free_declare (layers_of_isLocal hlocal) hold
  · rw [if_neg hpicks, if_neg hpicks]
    exact h.declare hfree hz

/-- In a class, outside its methods. -/
theorem ofClass (parent : Option Name) : Pairs ρ (V.ofClass parent) (Γ.ofClass parent) := by
  cases parent with
  | none => exact h
  | some p =>
    exact (h.enter (.superclass p.span)).declare (z := "super") List.not_mem_nil
      fun hnew ↦ (hnew ▸ ρ.isName_new).2 rfl

/-- Around a method of a class. -/
theorem ofMethod (f : FunDecl) : Pairs ρ (V.ofMethod f) (Γ.bind "this" "this") :=
  (h.enter (.receiver f.span)).declare (z := "this") List.not_mem_nil
    fun hnew ↦ (hnew ▸ ρ.isName_new).1 rfl

/-- After the parameters of a function, one of which may be renamed. -/
theorem parameters {ps : List Name} (hlocal : V.isLocal = true) (hps : (ps.map (·.text)).Nodup)
    (hfree : ∀ p ∈ ps, V.layers.Free p.text) (hnew : ∀ p ∈ ps, p.text ≠ ρ.new) :
    Pairs ρ (V.parameters ρ ps)
      (Γ.bindAll ps (ps.map fun p ↦ ⟨ρ.declared true p.span p.text, p.span⟩)) := by
  induction ps generalizing V Γ with
  | nil => exact h
  | cons p ps ih =>
    obtain ⟨hp, hps⟩ := List.nodup_cons.1 hps
    obtain ⟨hfreep, hfree⟩ := List.forall_mem_cons.1 hfree
    obtain ⟨hnewp, hnew⟩ := List.forall_mem_cons.1 hnew
    have hdeclare := h.declareVar p.span hfreep hnewp
    unfold Pairing.declare at hdeclare
    rw [h.isLocal, hlocal, if_pos rfl] at hdeclare
    refine ih hdeclare ((isLocal_declare p.text).trans hlocal) hps (fun q hq ↦ ?_) hnew
    exact (hfree q hq).declare fun heq ↦ hp (List.mem_map.2 ⟨q, hq, heq⟩)

/-- What is declared is what a reference to it finds. -/
theorem paired_declare {x x' : String} (hx : x ≠ ρ.new) (hglobal : V.isLocal = false → x' = x) :
    Paired (Γ.declare x x').names x x' := by
  unfold Pairing.declare
  rw [h.isLocal]
  cases hlocal : V.isLocal with
  | true => exact .inl ⟨rfl, rfl⟩
  | false =>
    have himage : V.image ρ x = x := by
      obtain ⟨_ | _, hops⟩ := V
      · refine if_neg fun h ↦ ?_
        have hhops : none = hops := h.2.2
        have hsome : hops.isSome = true := h.2.1
        rw [← hhops] at hsome
        cases hsome
      · cases hlocal
    have hpaired := h.paired x hx
    rw [himage] at hpaired
    exact hglobal hlocal ▸ hpaired

/-- What is declared, and what it is called afterwards, refer to the same variable. -/
theorem refers_declared {span : Span} {x : String} (hx : x ≠ ρ.new) :
    (Γ.declare x (ρ.declared V.isLocal span x)).Refers ρ.leeway x
      (ρ.declared V.isLocal span x) := by
  refine ⟨h.paired_declare hx fun hlocal ↦ if_neg fun hpicks ↦ ?_, ρ.declared_cases _ _ _⟩
  exact Bool.false_ne_true (hlocal.symm.trans hpicks.1)

/-- After a statement. -/
theorem after {K : Reference → Prop} {cx : Surroundings} {s : Stmt}
    (hs : FitsStmt K cx V.layers s) (hnew : s.Avoids ρ.new) :
    Pairs ρ (V.after ρ s) (Γ.after s (s.rename ρ V)) := by
  cases s with
  | varDecl span x v => exact h.declareVar _ hs.1 hnew.1
  | funDecl f =>
    obtain ⟨span, n, ps, body⟩ := f
    exact h.declare hs.1 hnew.1
  | classDecl span n parent fs => exact h.declare hs.1 hnew.1
  | _ => exact h

/-- After a clause. -/
theorem after? {K : Reference → Prop} {cx : Surroundings} {s : Option Stmt}
    (hs : FitsStmt? K cx V.layers s) (hnew : Stmt.Avoids? ρ.new s) :
    Pairs ρ (V.after? ρ s) (Γ.after? s (Stmt.rename? ρ V s)) := by
  cases s with
  | none => exact h
  | some s => exact h.after hs hnew

end Pairs

end View

section Rename

variable {ρ : Renaming} {K : Reference → Prop}

mutual

/-- What fits and does not know the new name is alike to its renaming. -/
theorem FitsExpr.rename_alike {cx : Surroundings} {V : View} {Γ : Pairing} (hΓ : V.Pairs ρ Γ)
    {e : Expr} (h : FitsExpr K cx V.layers e) (hnew : e.Avoids ρ.new) :
    Expr.Alike ρ.leeway Γ e (e.rename ρ V) :=
  match e, h, hnew with
  | .literal .., _, _ => .literal
  | .var .., _, hx => .var (hΓ.refers hx)
  | .assign .., ⟨hv, _, _⟩, ⟨hx, hnv⟩ => .assign (hΓ.refers hx) (hv.rename_alike hΓ hnv)
  | .step .., _, hx => .step (hΓ.refers hx)
  | .group _ e, h, hnew => .group (FitsExpr.rename_alike (e := e) hΓ h hnew)
  | .unary _ _ e, h, hnew => .unary (FitsExpr.rename_alike (e := e) hΓ h hnew)
  | .binary .., ⟨hl, hr⟩, ⟨hnl, hnr⟩ =>
    .binary (FitsExpr.rename_alike hΓ hl hnl) (FitsExpr.rename_alike hΓ hr hnr)
  | .call .., ⟨he, hes⟩, ⟨hne, hnes⟩ =>
    .call (FitsExpr.rename_alike hΓ he hne) (FitsExprs.rename_alike hΓ hes hnes)
  | .property _ e _, h, hnew => .property (FitsExpr.rename_alike (e := e) hΓ h hnew)
  | .setProperty .., ⟨he, hv⟩, ⟨hne, hnv⟩ =>
    .setProperty (FitsExpr.rename_alike hΓ he hne) (FitsExpr.rename_alike hΓ hv hnv)
  | .this _, _, _ => .this (hΓ.word fun h ↦ h.1 rfl)
  | .super _ _, _, _ => .super (hΓ.word fun h ↦ h.1 rfl) (hΓ.word fun h ↦ h.2 rfl)
  | .lambda f, h, hnew => .lambda (FitsFunction.rename_alike (f := f) hΓ h hnew)

/-- Expressions that fit and do not know the new name are alike to their renaming. -/
theorem FitsExprs.rename_alike {cx : Surroundings} {V : View} {Γ : Pairing} (hΓ : V.Pairs ρ Γ)
    {es : List Expr} (h : FitsExprs K cx V.layers es) (hnew : Expr.AllAvoid ρ.new es) :
    Expr.AllAlike ρ.leeway Γ es (Expr.renameAll ρ V es) :=
  match es, h, hnew with
  | [], _, _ => .nil
  | _ :: _, ⟨he, hes⟩, ⟨hne, hnes⟩ =>
    .cons (FitsExpr.rename_alike hΓ he hne) (FitsExprs.rename_alike hΓ hes hnes)

theorem FitsExpr?.rename_alike {cx : Surroundings} {V : View} {Γ : Pairing} (hΓ : V.Pairs ρ Γ)
    {e : Option Expr} (h : FitsExpr? K cx V.layers e) (hnew : Expr.Avoids? ρ.new e) :
    Expr.Alike? ρ.leeway Γ e (Expr.rename? ρ V e) :=
  match e, h, hnew with
  | none, _, _ => .none
  | some e, h, hnew => .some (FitsExpr.rename_alike (e := e) hΓ h hnew)

theorem FitsFunction.rename_alike {cx : Surroundings} {V : View} {Γ : Pairing}
    (hΓ : V.Pairs ρ Γ) {kind : FunctionKind} {f : FunDecl} (h : FitsFunction K cx V.layers kind f)
    (hnew : f.Avoids ρ.new) : FunDecl.Alike ρ.leeway Γ f (f.rename ρ V) :=
  match f, h, hnew with
  | .mk span n ps body, ⟨hnodup, _, hbody⟩, ⟨hnps, hnbody⟩ => by
    have hparameters := (hΓ.enter (.function span)).parameters rfl hnodup
      (fun _ _ ↦ List.not_mem_nil) hnps
    rw [← View.layers_ofFunction ρ] at hbody
    refine .mk ?_ (hbody.rename_alike hparameters hnbody)
    exact List.forall₂_map_right_iff.2
      (List.forall₂_same.2 fun p _ ↦ ⟨rfl, ρ.declared_cases true p.span p.text⟩)

theorem FitsMethods.rename_alike {cx : Surroundings} {V : View} {Γ : Pairing} (hΓ : V.Pairs ρ Γ)
    {fs : List FunDecl} (h : FitsMethods K cx V.layers fs) (hnew : FunDecl.AllAvoid ρ.new fs) :
    FunDecl.AllAlike ρ.leeway Γ fs (FunDecl.renameAll ρ V fs) :=
  match fs, h, hnew with
  | [], _, _ => .nil
  | f :: _, ⟨hf, hfs⟩, ⟨hnf, hnfs⟩ =>
    .cons (FitsFunction.rename_alike (hΓ.ofMethod f) hf hnf) (FitsMethods.rename_alike hΓ hfs hnfs)

theorem FitsStmt.rename_alike {cx : Surroundings} {V : View} {Γ : Pairing} (hΓ : V.Pairs ρ Γ)
    {s : Stmt} (h : FitsStmt K cx V.layers s) (hnew : s.Avoids ρ.new) :
    Stmt.Alike ρ.leeway Γ s (s.rename ρ V) :=
  match s, h, hnew with
  | .expression _ v, h, hnew => .expression (FitsExpr.rename_alike (e := v) hΓ h hnew)
  | .print _ v, h, hnew => .print (FitsExpr.rename_alike (e := v) hΓ h hnew)
  | .varDecl .., ⟨hfree, _, hv⟩, ⟨hx, hnv⟩ =>
    .varDecl (hΓ.refers_declared hx)
      (FitsExpr?.rename_alike (hΓ.declareVar _ hfree hx) hv hnv)
  | .funDecl _, ⟨hfree, _, hf⟩, ⟨hx, hnf⟩ =>
    .funDecl (hΓ.paired_declare hx fun _ ↦ rfl) (hf.rename_alike (hΓ.declare hfree hx) hnf)
  | .classDecl _ n parent fs, ⟨hfree, _, _, hfs⟩, ⟨hx, hnparent, hnfs⟩ => by
    have hdeclare := hΓ.declare hfree hx
    replace hfs : FitsMethods K _ ((V.declare n).layers.ofClass parent) fs := hfs
    rw [← View.layers_ofClass] at hfs
    refine .classDecl (hΓ.paired_declare hx fun _ ↦ rfl) ?_
      (hfs.rename_alike (hdeclare.ofClass parent) hnfs)
    cases parent with
    | none => exact .none
    | some p => exact .some ⟨rfl, hdeclare.refers (hnparent p rfl)⟩
  | .block span body, h, hnew => by
    have hbody : FitsStmts K cx (V.enter (.block span)).layers body := h
    exact .block (hbody.rename_alike (hΓ.enter _) hnew)
  | .conditional .., ⟨hc, ⟨hyes, hdeclares⟩, hno, hdeclares'⟩, ⟨hnc, hnyes, hnno⟩ =>
    .conditional (FitsExpr.rename_alike hΓ hc hnc) (FitsStmt.rename_alike hΓ hyes hnyes)
      (FitsStmt?.rename_alike hΓ hno hnno) hdeclares hdeclares'
  | .whileLoop .., ⟨hc, hbody, hdeclares⟩, ⟨hnc, hnbody⟩ =>
    .whileLoop (FitsExpr.rename_alike hΓ hc hnc) (FitsStmt.rename_alike hΓ hbody hnbody) hdeclares
  | .forLoop span i c u body, ⟨hi, hc, hu, hbody, hdeclares⟩, ⟨hni, hnc, hnu, hnbody⟩ => by
    have hinner := (hΓ.enter (.loop span)).after? hi hni
    replace hc : FitsExpr? K cx ((V.enter (.loop span)).layers.after? i) c := hc
    replace hu : FitsExpr? K cx ((V.enter (.loop span)).layers.after? i) u := hu
    replace hbody : FitsStmt K cx ((V.enter (.loop span)).layers.after? i) body := hbody
    rw [← View.layers_after? ρ] at hc hu hbody
    exact .forLoop (hi.rename_alike (hΓ.enter _) hni) (hc.rename_alike hinner hnc)
      (hu.rename_alike hinner hnu) (hbody.rename_alike hinner hnbody) hdeclares
  | .returns .., ⟨_, _, hv⟩, hnv => .returns (FitsExpr?.rename_alike hΓ hv hnv)

/-- Statements that fit and do not know the new name are alike to their renaming. -/
theorem FitsStmts.rename_alike {cx : Surroundings} {V : View} {Γ : Pairing} (hΓ : V.Pairs ρ Γ)
    {ss : List Stmt} (h : FitsStmts K cx V.layers ss) (hnew : Stmt.AllAvoid ρ.new ss) :
    Stmt.AllAlike ρ.leeway Γ ss (Stmt.renameAll ρ V ss) :=
  match ss, h, hnew with
  | [], _, _ => .nil
  | s :: _, ⟨hs, hss⟩, ⟨hns, hnss⟩ => by
    rw [← View.layers_after ρ] at hss
    exact .cons (hs.rename_alike hΓ hns) (hss.rename_alike (hΓ.after hs hns) hnss)

theorem FitsStmt?.rename_alike {cx : Surroundings} {V : View} {Γ : Pairing} (hΓ : V.Pairs ρ Γ)
    {s : Option Stmt} (h : FitsStmt? K cx V.layers s) (hnew : Stmt.Avoids? ρ.new s) :
    Stmt.Alike? ρ.leeway Γ s (Stmt.rename? ρ V s) :=
  match s, h, hnew with
  | none, _, _ => .none
  | some s, h, hnew => .some (FitsStmt.rename_alike (s := s) hΓ h hnew)

end

end Rename

end LoxLang
