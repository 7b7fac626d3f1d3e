import LoxLang.Proofs.Alike
import LoxLang.Proofs.Layers.Resolved

/-!
# The faults of alike programs

If loops are written out and no name is changed, then the walk over the two programs finds the same
faults, although not always in the same order (`Stmt.AllAlike.faults`): the step of a loop is walked
before the body on one side and after it on the other. What is a fault depends on nothing but the
innermost scope, and a block around the body of a loop declares nothing that could make a
difference.
-/

namespace LoxLang

/-! ### Scopes -/

/-- The innermost scope is the same, and it is global in both or in neither. -/
inductive SameInnermost : Scopes → Scopes → Prop
  | global (globals : Scope) : SameInnermost ⟨[], globals⟩ ⟨[], globals⟩
  | inner (scope : Scope) (locals locals' : List Scope) (globals globals' : Scope) :
      SameInnermost ⟨scope :: locals, globals⟩ ⟨scope :: locals', globals'⟩

/-- No name is unfinished in one of the two only. -/
def SameUnfinished (S S' : Scopes) : Prop := ∀ x, S'.unfinished x = S.unfinished x

namespace SameInnermost

variable {S S' : Scopes}

theorem refl (S : Scopes) : SameInnermost S S := by
  obtain ⟨_ | _, _⟩ := S
  · exact .global _
  · exact .inner ..

theorem push (scope : Scope) (S S' : Scopes) : SameInnermost (S.push scope) (S'.push scope) :=
  .inner ..

/-- Where the innermost scopes are the same, the same names are unfinished. -/
theorem unfinished (h : SameInnermost S S') : SameUnfinished S S' := by
  cases h <;> exact fun _ ↦ rfl

/-- Whether a name may be declared depends on the innermost scope only. -/
theorem declarationFault?_eq (h : SameInnermost S S') (x : String) (span : Span) :
    S'.declarationFault? x span = S.declarationFault? x span := by
  cases h <;> rfl

theorem declare (h : SameInnermost S S') (x : String) :
    SameInnermost (S.declare x) (S'.declare x) := by
  cases h with
  | global globals => exact .refl _
  | inner => exact .inner ..

theorem define (h : SameInnermost S S') (x : String) :
    SameInnermost (S.define x) (S'.define x) := by
  cases h with
  | global globals => exact .refl _
  | inner => exact .inner ..

/-- The parameters of a function are declared alike, with the same faults. -/
theorem parameters (h : SameInnermost S S') (ps : List Name) :
    SameInnermost (Finding.parameters S ps).1 (Finding.parameters S' ps).1 ∧
      (Finding.parameters S' ps).2 = (Finding.parameters S ps).2 := by
  induction ps generalizing S S' with
  | nil => exact ⟨h, rfl⟩
  | cons p ps ih =>
    obtain ⟨hscopes, hfound⟩ := ih ((h.declare p.text).define p.text)
    refine ⟨hscopes, ?_⟩
    simp only [Finding.parameters, Finding.defining, h.declarationFault?_eq, hfound]

end SameInnermost

namespace Finding

variable {cx : Surroundings} {S : Scopes}

@[simp] theorem faults_reference (S : Scopes) (span : Span) (x : String) :
    faults (reference S span x) = [] := by
  unfold reference
  cases S.hops? x <;> rfl

/-- A proper statement that declares nothing leaves the scopes as they are. -/
theorem ofStmt_fst {s : Stmt} (h : s.Proper) (hs : s.declares = none) : (ofStmt cx S s).1 = S :=
  match s, h, hs with
  | .expression .., _, _ | .print .., _, _ | .block .., _, _ | .forLoop .., _, _
  | .returns .., _, _ => rfl
  | .conditional _ _ yes none, ⟨_, ⟨hyes, hdeclares⟩, _⟩, _ =>
    ofStmt_fst (s := yes) hyes hdeclares
  | .conditional _ _ yes (some no), ⟨_, ⟨hyes, hdeclares⟩, hno, hdeclares'⟩, _ => by
    rw [ofStmt_conditional, ofStmt_fst (s := yes) hyes hdeclares]
    exact ofStmt_fst (s := no) hno hdeclares'
  | .whileLoop _ _ body, ⟨_, hbody, hdeclares⟩, _ => ofStmt_fst (s := body) hbody hdeclares

/-- After a first clause, nothing is unfinished. -/
theorem unfinished_ofStmt? {i : Option Stmt} (hi : i.all Stmt.isClause = true) (x : String) :
    (ofStmt? cx (S.push []) i).1.unfinished x = false := by
  match i, hi with
  | none, _ | some (.expression _ _), _ => rfl
  | some (.varDecl _ y _), _ =>
    change (List.lookup x [(y, true), (y, false)] == some false) = false
    by_cases hx : x = y
    · simp [hx]
    · simp [List.lookup_cons, beq_false_of_ne hx]

end Finding

/-! ### Faults -/

/-- The same faults are found, perhaps in another order. -/
def SameFaults (found found' : List Finding) : Prop :=
  (Finding.faults found').Perm (Finding.faults found)

namespace SameFaults

variable {found found' others others' : List Finding} {S S' : Scopes}

theorem refl (found : List Finding) : SameFaults found found := List.Perm.refl _

theorem of_eq (h : found' = found) : SameFaults found found' := h ▸ .refl _

/-- The faults of two parts are the same if those of each are. -/
theorem append (h : SameFaults found found') (h' : SameFaults others others') :
    SameFaults (found ++ others) (found' ++ others') := by
  unfold SameFaults
  rw [Finding.faults_append, Finding.faults_append]
  exact List.Perm.append h h'

/-- The step of a loop may be walked before the body or after it. -/
theorem loop {fi fi' fc fc' fu fu' fb fb' : List Finding} (hi : SameFaults fi fi')
    (hc : SameFaults fc fc') (hu : SameFaults fu fu') (hb : SameFaults fb fb') :
    SameFaults (fi ++ fc ++ fu ++ fb) (fi' ++ (fc' ++ (fb' ++ fu'))) := by
  unfold SameFaults
  simp only [Finding.faults_append]
  exact perm_loop hi hc hu hb

/-- At a reference no fault is found, wherever it stands. -/
theorem reference (S S' : Scopes) (span : Span) (x x' : String) :
    SameFaults (Finding.reference S span x) (Finding.reference S' span x') := by
  unfold SameFaults
  rw [Finding.faults_reference, Finding.faults_reference]

/-- A read has the same faults where the same names are unfinished. -/
theorem reading (hS : SameUnfinished S S') (span : Span) (x : String) :
    SameFaults (Finding.reading S span x) (Finding.reading S' span x) := by
  unfold Finding.reading
  rw [hS x]
  exact (refl _).append (reference ..)

/-- A declaration has the same faults where the innermost scopes are the same. -/
theorem declaring (hS : SameInnermost S S') (span : Span) (x : String) :
    SameFaults (Finding.declaring S span x).2 (Finding.declaring S' span x).2 := by
  refine .of_eq ?_
  unfold Finding.declaring
  rw [hS.declarationFault?_eq]

theorem defining (hS : SameInnermost S S') (span : Span) (x : String) :
    SameFaults (Finding.defining S span x).2 (Finding.defining S' span x).2 :=
  declaring hS span x

/-- A superclass has the same faults where the same names are unfinished. -/
theorem superclass (hS : SameUnfinished S S') (x : String) (p : Name) :
    SameFaults (Finding.superclass S x p) (Finding.superclass S' x p) :=
  (refl _).append (reading hS _ _)

end SameFaults

/-- Loops may be written out, and no name is changed. -/
def Leeway.written : Leeway where
  name x x' := x' = x
  loops := True
  refl _ := rfl
  isName h hx := h ▸ hx

section Written

/-- Parameters that may differ in nothing do not. -/
theorem Name.eq_of_forall₂ {ps ps' : List Name} (h : List.Forall₂ (fun p p' : Name ↦
    p'.span = p.span ∧ Leeway.written.name p.text p'.text) ps ps') : ps' = ps := by
  induction h with
  | nil => rfl
  | @cons p p' _ _ hp _ ih =>
    obtain ⟨text, span⟩ := p
    obtain ⟨text', span'⟩ := p'
    obtain ⟨rfl, hname⟩ := hp
    obtain rfl : text' = text := hname
    rw [ih]

/-- After alike statements the innermost scope is the same, if it was before. -/
theorem Stmt.Alike.scopes {Γ : Pairing} {s s' : Stmt} (h : Stmt.Alike .written Γ s s')
    (hs : s.Proper) {S S' : Scopes} (hS : SameInnermost S S') (cx : Surroundings) :
    SameInnermost (Finding.ofStmt cx S s).1 (Finding.ofStmt cx S' s').1 := by
  have hs' := h.proper hs
  cases hdeclares : s.declares with
  | none =>
    rw [Finding.ofStmt_fst hs hdeclares, Finding.ofStmt_fst hs' (h.declares_eq_none.2 hdeclares)]
    exact hS
  | some x =>
    cases h with
    | varDecl hx _ =>
      rw [hx.name]
      exact (hS.declare _).define _
    | @funDecl _ f f' _ hf =>
      change SameInnermost ((S.declare f.name).define f.name) ((S'.declare f'.name).define f'.name)
      rw [hf.name_eq]
      exact (hS.declare _).define _
    | classDecl => exact (hS.declare _).define _
    | _ => cases hdeclares

/-- Clauses that are alike leave the same innermost scope. -/
theorem Stmt.Alike?.scopes? {Γ : Pairing} {s s' : Option Stmt} (h : Stmt.Alike? .written Γ s s')
    (hs : Stmt.Proper? s) {S S' : Scopes} (hS : SameInnermost S S') (cx : Surroundings) :
    SameInnermost (Finding.ofStmt? cx S s).1 (Finding.ofStmt? cx S' s').1 := by
  cases h with
  | none => exact hS
  | some h => exact h.scopes hs hS cx

/-- What is found in a loop that is written out. The block around the body leaves the scopes as
they are. -/
theorem Finding.ofStmt_desugared (cx : Surroundings) (S : Scopes) (places : LoopSpans)
    (i : Option Stmt) (c u : Option Expr) {body : Stmt} (hbody : body.Proper)
    (hdeclares : body.declares = none) : (ofStmt cx S (.desugared places i c u body)).2 =
      (ofStmt? cx (S.push []) i).2 ++ (ofExpr? cx (ofStmt? cx (S.push []) i).1 c ++
        ((ofStmt cx ((ofStmt? cx (S.push []) i).1.push []) body).2 ++
          ofExpr? cx ((ofStmt? cx (S.push []) i).1.push []) u)) := by
  have hsteps (S : Scopes) : (ofStmts cx S (places.steps u)).2 = ofExpr? cx S u := by
    cases u with
    | none => rfl
    | some u => exact List.append_nil _
  have htest (S : Scopes) : ofExpr cx S (places.test c) = ofExpr? cx S c := by
    cases c <;> rfl
  have hloop (S : Scopes) :
      (ofStmts cx S [.whileLoop places.loop (places.test c) (places.round u body)]).2 =
        ofExpr? cx S c ++ ((ofStmt cx (S.push []) body).2 ++ ofExpr? cx (S.push []) u) := by
    have hfst : (ofStmt cx (S.push []) body).1 = S.push [] := ofStmt_fst hbody hdeclares
    simp only [LoopSpans.round, ofStmts, ofStmt, hsteps, htest, hfst, List.append_nil]
  cases i with
  | none => exact hloop _
  | some i => exact congrArg ((ofStmt cx (S.push []) i).2 ++ ·) (hloop _)

-- to be alike is a proposition, so the recursion is on the first of the two trees
mutual

/-- Alike expressions have the same faults. -/
theorem Expr.Alike.faults {Γ : Pairing} {e e' : Expr} (h : Expr.Alike .written Γ e e')
    (he : e.Proper) {S S' : Scopes} (hS : SameUnfinished S S') (cx : Surroundings) :
    SameFaults (Finding.ofExpr cx S e) (Finding.ofExpr cx S' e') :=
  match h, he with
  | .literal, _ => .refl _
  | .var hx, _ => hx.name ▸ .reading hS _ _
  | .assign _ hv, he => (hv.faults he.2 hS cx).append (.reference ..)
  | .step _, _ => .reference ..
  | .group h, he | .unary h, he | .property h, he => h.faults he hS cx
  | .binary hl hr, he => (hl.faults he.1 hS cx).append (hr.faults he.2 hS cx)
  | .call hf hes, he => (hf.faults he.1 hS cx).append (hes.faults he.2 hS cx)
  | .setProperty ho hv, he => (hv.faults he.2 hS cx).append (ho.faults he.1 hS cx)
  | .this _, _ => (SameFaults.refl _).append (.reference ..)
  | .super _ _, _ => (SameFaults.refl _).append (.reference ..)
  | .lambda hf, he => hf.faults he S S' cx .plain
termination_by structural e

/-- Expressions that are alike have the same faults. -/
theorem Expr.AllAlike.faults {Γ : Pairing} {es es' : List Expr}
    (h : Expr.AllAlike .written Γ es es') (hes : Expr.AllProper es) {S S' : Scopes}
    (hS : SameUnfinished S S') (cx : Surroundings) :
    SameFaults (Finding.ofExprs cx S es) (Finding.ofExprs cx S' es') :=
  match h, hes with
  | .nil, _ => .refl _
  | .cons h h', hes => (h.faults hes.1 hS cx).append (h'.faults hes.2 hS cx)
termination_by structural es

theorem Expr.Alike?.faults {Γ : Pairing} {e e' : Option Expr} (h : Expr.Alike? .written Γ e e')
    (he : Expr.Proper? e) {S S' : Scopes} (hS : SameUnfinished S S') (cx : Surroundings) :
    SameFaults (Finding.ofExpr? cx S e) (Finding.ofExpr? cx S' e') :=
  match h, he with
  | .none, _ => .refl _
  | .some h, he => h.faults he hS cx
termination_by structural e

/-- A function has a scope of its own, so nothing is required of the scopes around it. -/
theorem FunDecl.Alike.faults {Γ : Pairing} {f f' : FunDecl} (h : FunDecl.Alike .written Γ f f')
    (hf : f.Proper) (S S' : Scopes) (cx : Surroundings) (kind : FunctionKind) :
    SameFaults (Finding.ofFunction cx S kind f) (Finding.ofFunction cx S' kind f') :=
  match h, hf with
  | .mk hps hbody, hf => by
    obtain rfl := Name.eq_of_forall₂ hps
    obtain ⟨hscopes, hfound⟩ := (SameInnermost.push [] S S').parameters _
    exact (SameFaults.of_eq hfound).append (hbody.faults hf.2 hscopes _)
termination_by structural f

/-- Methods that are alike have the same faults. -/
theorem FunDecl.AllAlike.faults {Γ : Pairing} {fs fs' : List FunDecl}
    (h : FunDecl.AllAlike .written Γ fs fs') (hfs : FunDecl.AllProper fs) (S S' : Scopes)
    (cx : Surroundings) :
    SameFaults (Finding.ofMethods cx S fs) (Finding.ofMethods cx S' fs') :=
  match h, hfs with
  | .nil, _ => .refl _
  | @FunDecl.AllAlike.cons _ _ f f' _ _ h h', hfs => by
    have hkind : Finding.methodKind f' = Finding.methodKind f := by
      unfold Finding.methodKind FunDecl.isInitializer
      rw [h.name_eq]
    have hmethod := h.faults hfs.1 S S' cx (Finding.methodKind f')
    exact SameFaults.append (hkind ▸ hmethod) (h'.faults hfs.2 S S' cx)
termination_by structural fs

/-- Alike statements have the same faults. What declares a name depends on the innermost scope, and
everything else only on what is unfinished. -/
theorem Stmt.Alike.faults {Γ : Pairing} {s s' : Stmt} (h : Stmt.Alike .written Γ s s')
    (hs : s.Proper) {S S' : Scopes} (hS : SameUnfinished S S')
    (hdeclares : s.declares = none ∨ SameInnermost S S') (cx : Surroundings) :
    SameFaults (Finding.ofStmt cx S s).2 (Finding.ofStmt cx S' s').2 :=
  match h, hs with
  | .expression h, hs | .print h, hs => h.faults hs hS cx
  | .varDecl hx hv, hs => by
    have hS := hdeclares.resolve_left nofun
    rw [hx.name]
    exact (SameFaults.declaring hS _ _).append (hv.faults hs.2 (hS.declare _).unfinished cx)
  | @Stmt.Alike.funDecl _ _ f f' _ hf, hs => by
    have hS := hdeclares.resolve_left nofun
    have hfound : SameFaults (Finding.defining S f.span f.name).2
        (Finding.defining S' f'.span f'.name).2 := by
      rw [hf.span_eq, hf.name_eq]
      exact .defining hS _ _
    exact hfound.append (hf.faults hs.2 _ _ cx .plain)
  | .classDecl _ hp hms, hs => by
    have hS := hdeclares.resolve_left nofun
    have hinner (x : String) := ((hS.declare x).define x).unfinished
    cases hp with
    | none => exact ((SameFaults.defining hS _ _).append (.refl _)).append (hms.faults hs.2 _ _ _)
    | @some p p' hp =>
      obtain ⟨text, span⟩ := p
      obtain ⟨text', span'⟩ := p'
      obtain ⟨rfl, hp⟩ := hp
      obtain rfl : text' = text := hp.name
      exact ((SameFaults.defining hS _ _).append (.superclass (hinner _) _ _)).append
        (hms.faults hs.2 _ _ _)
  | .block hbody, hs => hbody.faults hs (.push [] S S') cx
  | .conditional hc hyes hno _ _, ⟨hs, ⟨hsyes, hdeclares⟩, hsno, hdeclares'⟩ => by
    rw [Finding.ofStmt_conditional, Finding.ofStmt_conditional, Finding.ofStmt_fst hsyes hdeclares,
      Finding.ofStmt_fst (hyes.proper hsyes) (hyes.declares_eq_none.2 hdeclares)]
    exact ((hc.faults hs hS cx).append (hyes.faults hsyes hS (.inl hdeclares) cx)).append
      (hno.faults hsno hS (.inl hdeclares') cx)
  | .whileLoop hc hbody declares, ⟨hs, hsbody, _⟩ =>
    (hc.faults hs hS cx).append (hbody.faults hsbody hS (.inl declares) cx)
  | .forLoop hi hc hu hbody declares, ⟨⟨hsi, hclause⟩, hsc, hsu, hsbody, _⟩ => by
    have hpush := SameInnermost.push [] S S'
    have hinner := (hi.scopes? hsi hpush cx).unfinished
    exact (((hi.faults hsi hpush.unfinished (.inr hpush) cx).append
      (hc.faults hsc hinner cx)).append (hu.faults hsu hinner cx)).append
      (hbody.faults hsbody hinner (.inl declares) cx)
  | @Stmt.Alike.desugared _ _ _ places i i' c c' u u' body body' _ _ hi hc hu hbody declares,
      ⟨⟨hsi, hclause⟩, hsc, hsu, hsbody, _⟩ => by
    have hpush := SameInnermost.push [] S S'
    have hinner := (hi.scopes? hsi hpush cx).unfinished
    -- the block around the body has nothing unfinished, but neither has the scope of the loop
    have hquiet : SameUnfinished (Finding.ofStmt? cx (S.push []) i).1
        ((Finding.ofStmt? cx (S'.push []) i').1.push []) :=
      fun x ↦ (Finding.unfinished_ofStmt? hclause x).symm
    rw [Finding.ofStmt_desugared cx S' places i' c' u' (hbody.proper hsbody)
      (hbody.declares_eq_none.2 declares)]
    exact .loop (hi.faults hsi hpush.unfinished (.inr hpush) cx) (hc.faults hsc hinner cx)
      (hu.faults hsu hquiet cx) (hbody.faults hsbody hquiet (.inl declares) cx)
  | .returns h, hs => by
    cases h with
    | none => exact .refl _
    | some h => exact (SameFaults.refl _).append (h.faults hs hS cx)
termination_by structural s

/-- Statements that are alike have the same faults. -/
theorem Stmt.AllAlike.faults {Γ : Pairing} {ss ss' : List Stmt}
    (h : Stmt.AllAlike .written Γ ss ss') (hss : Stmt.AllProper ss) {S S' : Scopes}
    (hS : SameInnermost S S') (cx : Surroundings) :
    SameFaults (Finding.ofStmts cx S ss).2 (Finding.ofStmts cx S' ss').2 :=
  match h, hss with
  | .nil, _ => .refl _
  | .cons h h', ⟨hs, hss⟩ =>
    (h.faults hs hS.unfinished (.inr hS) cx).append (h'.faults hss (h.scopes hs hS cx) cx)
termination_by structural ss

/-- Clauses that are alike have the same faults. -/
theorem Stmt.Alike?.faults {Γ : Pairing} {s s' : Option Stmt} (h : Stmt.Alike? .written Γ s s')
    (hs : Stmt.Proper? s) {S S' : Scopes} (hS : SameUnfinished S S')
    (hdeclares : s.bind Stmt.declares = none ∨ SameInnermost S S') (cx : Surroundings) :
    SameFaults (Finding.ofStmt? cx S s).2 (Finding.ofStmt? cx S' s').2 :=
  match h, hs with
  | .none, _ => .refl _
  | .some h, hs => h.faults hs hS hdeclares cx
termination_by structural s

end

end Written

end LoxLang
