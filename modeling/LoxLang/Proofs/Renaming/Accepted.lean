import LoxLang.Program.Equality
import LoxLang.Proofs.Alike.Runs
import LoxLang.Proofs.Globals
import LoxLang.Proofs.Renaming

/-!
# Renamed programs

A program in which a local variable has got a new name is accepted if it was before, with the same
distances: if the walk over a program finds no fault, then over its renaming it finds the same
(`Stmt.AllAlike.findings`). So the two run alike (`Moment.Reached.execute_rename`).
-/

namespace LoxLang

/-! ### Scopes -/

/-- A name is found in the innermost scope that declares it. -/
theorem Scopes.hops?_cons (scope : Scope) (locals : List Scope) (globals : Scope) (x : String) :
    Scopes.hops? ⟨scope :: locals, globals⟩ x =
      if scope.declares x then some 0 else (Scopes.hops? ⟨locals, globals⟩ x).map (· + 1) :=
  List.findIdx?_cons

/-- An entry is found by its own name only. -/
theorem Scopes.hops?_add (scope : Scope) (locals : List Scope) (globals : Scope) (x : String)
    (finished : Bool) (y : String) :
    Scopes.hops? ⟨((x, finished) :: scope) :: locals, globals⟩ y =
      if y = x then some 0 else Scopes.hops? ⟨scope :: locals, globals⟩ y := by
  rw [hops?_cons, hops?_cons, declares_cons]
  by_cases hx : y = x <;> simp [hx]

/-- Of all names only the one that is added to the innermost scope may change. -/
theorem Scopes.unfinished_add (scope : Scope) (locals : List Scope) (globals : Scope) (x : String)
    (finished : Bool) (y : String) :
    Scopes.unfinished ⟨((x, finished) :: scope) :: locals, globals⟩ y =
      if y = x then !finished else Scopes.unfinished ⟨scope :: locals, globals⟩ y := by
  unfold unfinished innermost
  rw [List.headD_cons, List.headD_cons, List.lookup_cons]
  by_cases hx : y = x
  · subst hx
    cases finished <;> simp
  · simp [hx, beq_false_of_ne hx]

/-- Of two pairs that refer to the same variables, both names are the same or neither is. -/
theorem Paired.eq_iff {names : List (String × String)} {x x' y y' : String}
    (hx : Paired names x x') (hy : Paired names y y') : y = x ↔ y' = x' := by
  induction names with
  | nil =>
    obtain rfl : x' = x := hx
    obtain rfl : y' = y := hy
    exact Iff.rfl
  | cons p names ih =>
    obtain ⟨z, z'⟩ := p
    rcases hx with ⟨rfl, rfl⟩ | ⟨hxz, hxz', hx⟩ <;> rcases hy with ⟨rfl, rfl⟩ | ⟨hyz, hyz', hy⟩
    · exact ⟨fun _ ↦ rfl, fun _ ↦ rfl⟩
    · exact ⟨fun h ↦ absurd h hyz, fun h ↦ absurd h hyz'⟩
    · exact ⟨fun h ↦ absurd h.symm hxz, fun h ↦ absurd h.symm hxz'⟩
    · exact ih hx hy

/-- The scopes of the two walks at places that go with the pairing: what refers to the same variable
is found at the same distance, and finished in both or in neither. -/
structure Matches (ρ : Renaming) (Γ : Pairing) (S S' : Scopes) : Prop where
  isLocal : Γ.isLocal = !S.locals.isEmpty
  isLocal' : Γ.isLocal = !S'.locals.isEmpty
  top : Γ.isLocal = false → Γ.names = [] ∧ S' = S
  hops {x x' : String} (hx : x ≠ ρ.new) (h : Paired Γ.names x x') : S'.hops? x' = S.hops? x
  unfinished {x x' : String} (hx : x ≠ ρ.new) (h : Paired Γ.names x x') :
    S'.unfinished x' = S.unfinished x
  declares {x x' : String} (hlocal : Γ.isLocal = true) (hx : x ≠ ρ.new)
    (h : ρ.leeway.name x x') : S'.innermost.declares x' = true → S.innermost.declares x = true

namespace Matches

variable {ρ : Renaming} {Γ Γ' : Pairing} {S S' : Scopes} {x x' : String}

/-- At the top of a program nothing is renamed. -/
theorem global (hΓ : Γ.isLocal = false) (hnames : Γ.names = []) (hS : S.locals = []) :
    Matches ρ Γ S S where
  isLocal := by rw [hΓ, hS]; rfl
  isLocal' := by rw [hΓ, hS]; rfl
  top _ := ⟨hnames, rfl⟩
  hops _ h := by
    rw [hnames] at h
    rw [show _ = _ from h]
  unfinished _ h := by
    rw [hnames] at h
    rw [show _ = _ from h]
  declares h := Bool.noConfusion (hΓ.symm.trans h)

theorem locals_of_global (h : Matches ρ Γ S S') (hΓ : Γ.isLocal = false) : S.locals = [] := by
  have hlocal := h.isLocal
  rw [hΓ, eq_comm, Bool.not_eq_false'] at hlocal
  exact List.isEmpty_iff.1 hlocal

/-- Matching scopes match for any pairing with fewer pairs. -/
theorem of_paired (h : Matches ρ Γ S S') (hlocal : Γ'.isLocal = true ∧ Γ.isLocal = true)
    (hpaired : ∀ x x', Paired Γ'.names x x' → Paired Γ.names x x') : Matches ρ Γ' S S' where
  isLocal := hlocal.1.trans (hlocal.2.symm.trans h.isLocal)
  isLocal' := hlocal.1.trans (hlocal.2.symm.trans h.isLocal')
  top h := Bool.noConfusion (h.symm.trans hlocal.1)
  hops hx h' := h.hops hx (hpaired _ _ h')
  unfinished hx h' := h.unfinished hx (hpaired _ _ h')
  declares _ hx h' := h.declares hlocal.2 hx h'

/-- A new innermost scope matches. -/
theorem push (h : Matches ρ Γ S S') : Matches ρ Γ.inner (S.push []) (S'.push []) where
  isLocal := rfl
  isLocal' := rfl
  top h := Bool.noConfusion h
  hops hx hpaired := by
    have hhops (S : Scopes) (x : String) : (S.push []).hops? x = (S.hops? x).map (· + 1) :=
      Scopes.hops?_cons [] S.locals S.globals x
    rw [hhops, hhops, h.hops hx hpaired]
  unfinished _ _ := rfl
  declares _ _ _ h := h

/-- A renamed name tells the name before. -/
theorem eq_of_name {y z : String} (hx : x ≠ ρ.new) (hy : y ≠ ρ.new) (hxz : ρ.leeway.name x z)
    (hyz : ρ.leeway.name y z) : y = x := by
  rcases hxz with rfl | ⟨rfl, rfl⟩ <;> rcases hyz with hyz | ⟨rfl, hyz⟩
  · exact hyz.symm
  · exact absurd hyz hx
  · exact absurd hyz.symm hy
  · rfl

/-- One more entry in the innermost scope, which is local. -/
theorem add {scope scope' : Scope} {locals locals' : List Scope} {globals globals' : Scope}
    (h : Matches ρ Γ ⟨scope :: locals, globals⟩ ⟨scope' :: locals', globals'⟩) (hx : x ≠ ρ.new)
    (hname : ρ.leeway.name x x') (finished : Bool) :
    Matches ρ (Γ.bind x x') ⟨((x, finished) :: scope) :: locals, globals⟩
      ⟨((x', finished) :: scope') :: locals', globals'⟩ where
  isLocal := rfl
  isLocal' := rfl
  top h := Bool.noConfusion h
  hops hy hpaired := by
    rw [Scopes.hops?_add, Scopes.hops?_add]
    rcases hpaired with ⟨rfl, rfl⟩ | ⟨hyx, hyx', hpaired⟩
    · rw [if_pos rfl, if_pos rfl]
    · rw [if_neg hyx, if_neg hyx', h.hops hy hpaired]
  unfinished hy hpaired := by
    rw [Scopes.unfinished_add, Scopes.unfinished_add]
    rcases hpaired with ⟨rfl, rfl⟩ | ⟨hyx, hyx', hpaired⟩
    · rw [if_pos rfl, if_pos rfl]
    · rw [if_neg hyx, if_neg hyx', h.unfinished hy hpaired]
  declares {y y'} _ hy hyname hdeclares := by
    change Scope.declares ((x', finished) :: scope') y' = true at hdeclares
    show Scope.declares ((x, finished) :: scope) y = true
    rw [declares_cons, Bool.or_eq_true, beq_iff_eq] at hdeclares ⊢
    rcases hdeclares with rfl | hdeclares
    · exact .inl (eq_of_name hx hy hname hyname)
    · exact .inr (h.declares h.isLocal hy hyname hdeclares)

/-- After a name is declared, with its first value not computed yet. -/
theorem declare (h : Matches ρ Γ S S') (hx : x ≠ ρ.new)
    (hrefers : (Γ.declare x x').Refers ρ.leeway x x') :
    Matches ρ (Γ.declare x x') (S.declare x) (S'.declare x') := by
  obtain ⟨locals, globals⟩ := S
  obtain ⟨locals', globals'⟩ := S'
  obtain ⟨hpaired, hname⟩ := hrefers
  have hlocal := h.isLocal
  have hlocal' := h.isLocal'
  unfold Pairing.declare at hpaired ⊢
  cases hΓ : Γ.isLocal with
  | true =>
    cases locals with
    | nil => cases hΓ.symm.trans hlocal
    | cons scope locals =>
      cases locals' with
      | nil => cases hΓ.symm.trans hlocal'
      | cons scope' locals' => exact h.add hx hname false
  | false =>
    obtain ⟨hnames, hS⟩ := h.top hΓ
    rw [hΓ, if_neg Bool.false_ne_true, hnames] at hpaired
    obtain rfl : x' = x := hpaired
    rw [hS]
    exact .global hΓ hnames (Scopes.locals_declare (h.locals_of_global hΓ) x')

/-- After a name that is declared is finished. -/
theorem define (h : Matches ρ Γ S S') (hx : x ≠ ρ.new) (hrefers : Γ.Refers ρ.leeway x x') :
    Matches ρ Γ (S.define x) (S'.define x') := by
  obtain ⟨hpaired, hname⟩ := hrefers
  cases hΓ : Γ.isLocal with
  | true =>
    obtain ⟨locals, globals⟩ := S
    obtain ⟨locals', globals'⟩ := S'
    cases locals with
    | nil => cases hΓ.symm.trans h.isLocal
    | cons scope locals =>
      cases locals' with
      | nil => cases hΓ.symm.trans h.isLocal'
      | cons scope' locals' =>
        refine (h.add hx hname true).of_paired ⟨hΓ, rfl⟩ fun y y' hy ↦ ?_
        by_cases hyx : y = x
        · exact .inl ⟨hyx, (hpaired.eq_iff hy).1 hyx⟩
        · exact .inr ⟨hyx, mt (hpaired.eq_iff hy).2 hyx, hy⟩
  | false =>
    obtain ⟨hnames, hS⟩ := h.top hΓ
    rw [hnames] at hpaired
    obtain rfl : x' = x := hpaired
    rw [hS]
    exact .global hΓ hnames (Scopes.locals_define (h.locals_of_global hΓ) x')

end Matches

/-! ### Findings -/

/-- If nothing is wrong with the first findings, then the second are the same. -/
def Repeats (found found' : List Finding) : Prop := Finding.faults found = [] → found' = found

theorem Repeats.refl (found : List Finding) : Repeats found found := fun _ ↦ rfl

/-- The findings of two parts repeat others if those of each do. -/
theorem Repeats.append {found found' others others' : List Finding} (h : Repeats found found')
    (h' : Repeats others others') : Repeats (found ++ others) (found' ++ others') := by
  intro hfaults
  rw [Finding.faults_append, List.append_eq_nil_iff] at hfaults
  rw [h hfaults.1, h' hfaults.2]

/-- So it is with what is found in two statements, and the scopes after them match. -/
structure Keeps (ρ : Renaming) (Γ : Pairing) (o o' : Scopes × List Finding) : Prop where
  scopes : Matches ρ Γ o.1 o'.1
  found : Repeats o.2 o'.2

namespace Matches

variable {ρ : Renaming} {Γ : Pairing} {S S' : Scopes} {x x' : String}

/-- A name and its partner are found the same number of scopes up. -/
theorem reference (h : Matches ρ Γ S S') (hx : x ≠ ρ.new) (hpaired : Paired Γ.names x x')
    (span : Span) : Repeats (Finding.reference S span x) (Finding.reference S' span x') := by
  intro _
  unfold Finding.reference
  rw [h.hops hx hpaired]

/-- A name and its partner are unfinished both, or neither is. -/
theorem reading (h : Matches ρ Γ S S') (hx : x ≠ ρ.new) (hpaired : Paired Γ.names x x')
    (span : Span) : Repeats (Finding.reading S span x) (Finding.reading S' span x') := by
  refine .append (fun hfaults ↦ ?_) (h.reference hx hpaired span)
  rw [Finding.faults_misplaced] at hfaults
  rw [h.unfinished hx hpaired, if_neg hfaults, if_neg hfaults]

/-- A superclass is refused under both names or under neither. -/
theorem superclass (h : Matches ρ Γ S S') {n : String} (hn : n ≠ ρ.new) {p p' : Name}
    (hspan : p'.span = p.span) (hp : p.text ≠ ρ.new) (hrefers : Γ.Refers ρ.leeway p.text p'.text) :
    Repeats (Finding.superclass S n p) (Finding.superclass S' n p') := by
  unfold Finding.superclass
  rw [hspan]
  refine .append (fun hfaults ↦ ?_) (h.reading hp hrefers.paired p.span)
  rw [Finding.faults_misplaced, beq_iff_eq] at hfaults
  have hne : p'.text ≠ n := by
    rcases hrefers.name with hname | ⟨-, hname⟩ <;> rw [hname]
    · exact hfaults
    · exact hn.symm
  simp [hfaults, hne]

/-- A declaration is refused under both names or under neither. -/
theorem declarationFault? (h : Matches ρ Γ S S') (hx : x ≠ ρ.new) (hname : ρ.leeway.name x x')
    (span : Span) : Repeats ((S.declarationFault? x span).toList.map .fault)
      ((S'.declarationFault? x' span).toList.map .fault) := by
  intro hfaults
  rw [Finding.faults_fault?, Option.toList_eq_nil_iff] at hfaults
  suffices hfaults' : S'.declarationFault? x' span = none by rw [hfaults, hfaults']
  obtain ⟨locals, globals⟩ := S
  obtain ⟨locals', globals'⟩ := S'
  cases locals' with
  | nil => rfl
  | cons scope' locals' =>
    cases locals with
    | nil => cases h.isLocal.symm.trans h.isLocal'
    | cons scope locals =>
      have hdeclares := h.declares h.isLocal hx hname
      by_cases hscope : scope'.declares x' = true
      · simp [Scopes.declarationFault?, show scope.declares x = true from hdeclares hscope]
          at hfaults
      · simp [Scopes.declarationFault?, hscope]

/-- Scopes that match do so after a name and its partner have been declared. -/
theorem declaring (h : Matches ρ Γ S S') (hx : x ≠ ρ.new)
    (hrefers : (Γ.declare x x').Refers ρ.leeway x x') (span : Span) :
    Keeps ρ (Γ.declare x x') (Finding.declaring S span x) (Finding.declaring S' span x') :=
  ⟨h.declare hx hrefers, h.declarationFault? hx hrefers.name span⟩

/-- Scopes that match do so after a name and its partner have been declared and finished. -/
theorem defining (h : Matches ρ Γ S S') (hx : x ≠ ρ.new)
    (hrefers : (Γ.declare x x').Refers ρ.leeway x x') (span : Span) :
    Keeps ρ (Γ.declare x x') (Finding.defining S span x) (Finding.defining S' span x') :=
  ⟨(h.declare hx hrefers).define hx hrefers, h.declarationFault? hx hrefers.name span⟩

/-- Scopes that match do so after parameters and their partners. -/
theorem parameters (h : Matches ρ Γ S S') (hΓ : Γ.isLocal = true) {ps ps' : List Name}
    (hps : List.Forall₂ (fun p p' ↦ p'.span = p.span ∧ ρ.leeway.name p.text p'.text) ps ps')
    (hnew : ∀ p ∈ ps, p.text ≠ ρ.new) :
    Keeps ρ (Γ.bindAll ps ps') (Finding.parameters S ps) (Finding.parameters S' ps') := by
  induction hps generalizing Γ S S' with
  | nil => exact ⟨h, .refl _⟩
  | @cons p p' ps ps' hp _ ih =>
    obtain ⟨hspan, hname⟩ := hp
    obtain ⟨hnewp, hnew⟩ := List.forall_mem_cons.1 hnew
    have hdeclare : Γ.declare p.text p'.text = Γ.bind p.text p'.text := if_pos hΓ
    have hrefers : (Γ.declare p.text p'.text).Refers ρ.leeway p.text p'.text :=
      hdeclare ▸ ⟨.inl ⟨rfl, rfl⟩, hname⟩
    have hdefining := h.defining hnewp hrefers p.span
    rw [hdeclare] at hdefining
    obtain ⟨hscopes, hfound⟩ := ih hdefining.scopes rfl hnew
    unfold Finding.parameters
    rw [hspan]
    exact ⟨hscopes, hdefining.found.append hfound⟩

/-- Inside a scope of a class, which declares one of its words. -/
theorem word (h : Matches ρ Γ S S') {x : String} (hx : ¬ IsName x) :
    Matches ρ (Γ.bind x x) (S.push [(x, true)]) (S'.push [(x, true)]) :=
  h.push.add (x := x) (fun hnew ↦ hx (hnew ▸ ρ.isName_new)) (.inl rfl) true

/-- The scopes around the methods of a class match. -/
theorem methodScopes (h : Matches ρ Γ S S') (parent : Option Name) :
    Matches ρ ((Γ.ofClass parent).bind "this" "this") (Finding.methodScopes S parent.isSome)
      (Finding.methodScopes S' parent.isSome) := by
  have hthis : ¬ IsName "this" := fun h ↦ h.1 rfl
  have hsuper : ¬ IsName "super" := fun h ↦ h.2 rfl
  cases parent with
  | none => exact h.word hthis
  | some p => exact (h.word hsuper).word hthis

end Matches

/-- Methods that are alike are initializers both, or neither is. -/
theorem FunDecl.Alike.methodKind_eq {ω : Leeway} {Γ : Pairing} {f f' : FunDecl}
    (h : FunDecl.Alike ω Γ f f') : Finding.methodKind f' = Finding.methodKind f := by
  unfold Finding.methodKind FunDecl.isInitializer
  rw [h.name_eq]

theorem Pairing.after?_eq_self (Γ : Pairing) {s s' : Option Stmt}
    (hs : s.bind Stmt.declares = none) : Γ.after? s s' = Γ := by
  unfold after?
  split
  · exact Γ.after_eq_self hs
  · rfl

section Findings

variable {ρ : Renaming}

-- to be alike is a proposition, so the recursion is on the first of the two trees
mutual

/-- Alike expressions have the same findings, if nothing is wrong with the first and it does not
know the new name. -/
theorem Expr.Alike.findings {Γ : Pairing} {e e' : Expr} (h : Expr.Alike ρ.leeway Γ e e')
    (hnew : e.Avoids ρ.new) {S S' : Scopes} (hS : Matches ρ Γ S S') (cx : Surroundings) :
    Repeats (Finding.ofExpr cx S e) (Finding.ofExpr cx S' e') :=
  match h, hnew with
  | .literal, _ => .refl _
  | .var hx, hnew => hS.reading hnew hx.paired _
  | .assign hx hv, ⟨hnew, hnv⟩ => (hv.findings hnv hS cx).append (hS.reference hnew hx.paired _)
  | .step hx, hnew => hS.reference hnew hx.paired _
  | .group h, hnew | .unary h, hnew | .property h, hnew => h.findings hnew hS cx
  | .binary hl hr, ⟨hnl, hnr⟩ => (hl.findings hnl hS cx).append (hr.findings hnr hS cx)
  | .call he hes, ⟨hne, hnes⟩ => (he.findings hne hS cx).append (hes.findings hnes hS cx)
  | .setProperty he hv, ⟨hne, hnv⟩ => (hv.findings hnv hS cx).append (he.findings hne hS cx)
  | .this hthis, _ =>
    (Repeats.refl _).append (hS.reference (fun hnew ↦ (hnew ▸ ρ.isName_new).1 rfl) hthis _)
  | .super _ hsuper, _ =>
    (Repeats.refl _).append (hS.reference (fun hnew ↦ (hnew ▸ ρ.isName_new).2 rfl) hsuper _)
  | .lambda hf, hnew => hf.findings hnew hS cx .plain
termination_by structural e

/-- The findings of expressions that are alike repeat each other. -/
theorem Expr.AllAlike.findings {Γ : Pairing} {es es' : List Expr}
    (h : Expr.AllAlike ρ.leeway Γ es es') (hnew : Expr.AllAvoid ρ.new es) {S S' : Scopes}
    (hS : Matches ρ Γ S S') (cx : Surroundings) :
    Repeats (Finding.ofExprs cx S es) (Finding.ofExprs cx S' es') :=
  match h, hnew with
  | .nil, _ => .refl _
  | .cons he hes, ⟨hne, hnes⟩ => (he.findings hne hS cx).append (hes.findings hnes hS cx)
termination_by structural es

theorem Expr.Alike?.findings {Γ : Pairing} {e e' : Option Expr}
    (h : Expr.Alike? ρ.leeway Γ e e') (hnew : Expr.Avoids? ρ.new e) {S S' : Scopes}
    (hS : Matches ρ Γ S S') (cx : Surroundings) :
    Repeats (Finding.ofExpr? cx S e) (Finding.ofExpr? cx S' e') :=
  match h, hnew with
  | .none, _ => .refl _
  | .some he, hne => he.findings hne hS cx
termination_by structural e

theorem FunDecl.Alike.findings {Γ : Pairing} {f f' : FunDecl} (h : FunDecl.Alike ρ.leeway Γ f f')
    (hnew : f.Avoids ρ.new) {S S' : Scopes} (hS : Matches ρ Γ S S') (cx : Surroundings)
    (kind : FunctionKind) :
    Repeats (Finding.ofFunction cx S kind f) (Finding.ofFunction cx S' kind f') :=
  match h, hnew with
  | .mk hps hbody, ⟨hnps, hnbody⟩ => by
    obtain ⟨hscopes, hfound⟩ := hS.push.parameters rfl hps hnps
    exact hfound.append (hbody.findings hnbody hscopes _)
termination_by structural f

theorem FunDecl.AllAlike.findings {Γ : Pairing} {fs fs' : List FunDecl}
    (h : FunDecl.AllAlike ρ.leeway Γ fs fs') (hnew : FunDecl.AllAvoid ρ.new fs) {S S' : Scopes}
    (hS : Matches ρ (Γ.bind "this" "this") S S') (cx : Surroundings) :
    Repeats (Finding.ofMethods cx S fs) (Finding.ofMethods cx S' fs') :=
  match h, hnew with
  | .nil, _ => .refl _
  | .cons hf hfs, ⟨hnf, hnfs⟩ => by
    unfold Finding.ofMethods
    rw [hf.methodKind_eq]
    exact (hf.findings hnf hS cx _).append (hfs.findings hnfs hS cx)
termination_by structural fs

/-- The findings of statements that are alike repeat each other, and the scopes match behind
them. -/
theorem Stmt.Alike.findings {Γ : Pairing} {s s' : Stmt} (h : Stmt.Alike ρ.leeway Γ s s')
    (hnew : s.Avoids ρ.new) {S S' : Scopes} (hS : Matches ρ Γ S S') (cx : Surroundings) :
    Keeps ρ (Γ.after s s') (Finding.ofStmt cx S s) (Finding.ofStmt cx S' s') :=
  match h, hnew with
  | .expression hv, hnew | .print hv, hnew => ⟨hS, hv.findings hnew hS cx⟩
  | .varDecl hx hv, ⟨hnew, hnv⟩ => by
    obtain ⟨hscopes, hfound⟩ := hS.declaring hnew hx _
    exact ⟨hscopes.define hnew hx, hfound.append (hv.findings hnv hscopes cx)⟩
  | @Stmt.Alike.funDecl _ _ f f' hx hf, ⟨hnew, hnf⟩ => by
    obtain ⟨hscopes, hfound⟩ := hS.defining hnew ⟨hx, .inl rfl⟩ f.span
    unfold Finding.ofStmt Pairing.after Stmt.declares
    simp only [hf.name_eq, hf.span_eq]
    exact ⟨hscopes, hfound.append (hf.findings hnf hscopes cx .plain)⟩
  | @Stmt.Alike.classDecl _ _ span n parent parent' _ _ hx hparent hms,
      ⟨hnew, hnparent, hnms⟩ => by
    obtain ⟨hscopes, hfound⟩ := hS.defining hnew ⟨hx, .inl rfl⟩ span
    have hmethods := fun cx ↦ hms.findings hnms (hscopes.methodScopes parent) cx
    cases hparent with
    | none => exact ⟨hscopes, (hfound.append (.refl _)).append (hmethods _)⟩
    | @some p p' hp =>
      have hsuperclass := hscopes.superclass hnew hp.1 (hnparent p rfl) hp.2
      exact ⟨hscopes, (hfound.append hsuperclass).append (hmethods _)⟩
  | .block hbody, hnew => ⟨hS, hbody.findings hnew hS.push cx⟩
  | .conditional hc hyes hno declares declares', ⟨hnc, hnyes, hnno⟩ => by
    obtain ⟨hscopes, hfound⟩ := hyes.findings hnyes hS cx
    rw [Γ.after_eq_self declares] at hscopes
    obtain ⟨hscopes', hfound'⟩ := hno.findings hnno hscopes cx
    rw [Γ.after?_eq_self declares'] at hscopes'
    exact ⟨hscopes', ((hc.findings hnc hS cx).append hfound).append hfound'⟩
  | .whileLoop hc hbody declares, ⟨hnc, hnbody⟩ => by
    obtain ⟨hscopes, hfound⟩ := hbody.findings hnbody hS cx
    rw [Γ.after_eq_self declares] at hscopes
    exact ⟨hscopes, (hc.findings hnc hS cx).append hfound⟩
  | .forLoop hi hc hu hbody declares, ⟨hni, hnc, hnu, hnbody⟩ => by
    obtain ⟨hscopes, hfound⟩ := hi.findings hni hS.push cx
    exact ⟨hS, ((hfound.append (hc.findings hnc hscopes cx)).append
      (hu.findings hnu hscopes cx)).append (hbody.findings hnbody hscopes cx).found⟩
  | .desugared loops _ _ _ _ _ _, _ => loops.elim
  | .returns hv, hnv => by
    refine ⟨hS, ?_⟩
    cases hv with
    | none => exact .refl _
    | some hv => exact (Repeats.refl _).append (hv.findings hnv hS cx)
termination_by structural s

/-- The findings of statements that are alike one by one repeat each other. -/
theorem Stmt.AllAlike.findings {Γ : Pairing} {ss ss' : List Stmt}
    (h : Stmt.AllAlike ρ.leeway Γ ss ss') (hnew : Stmt.AllAvoid ρ.new ss) {S S' : Scopes}
    (hS : Matches ρ Γ S S') (cx : Surroundings) :
    Repeats (Finding.ofStmts cx S ss).2 (Finding.ofStmts cx S' ss').2 :=
  match h, hnew with
  | .nil, _ => .refl _
  | .cons hs hss, ⟨hns, hnss⟩ => by
    obtain ⟨hscopes, hfound⟩ := hs.findings hns hS cx
    exact hfound.append (hss.findings hnss hscopes cx)
termination_by structural ss

theorem Stmt.Alike?.findings {Γ : Pairing} {s s' : Option Stmt}
    (h : Stmt.Alike? ρ.leeway Γ s s') (hnew : Stmt.Avoids? ρ.new s) {S S' : Scopes}
    (hS : Matches ρ Γ S S') (cx : Surroundings) :
    Keeps ρ (Γ.after? s s') (Finding.ofStmt? cx S s) (Finding.ofStmt? cx S' s') :=
  match h, hnew with
  | .none, _ => ⟨hS, .refl _⟩
  | .some hs, hns => hs.findings hns hS cx
termination_by structural s

end

end Findings

/-! ### Programs -/

/-- In a program without faults, a local variable may get a name that does not occur. -/
theorem Program.rename_alike {p : Program} (hproper : Stmt.AllProper p) {names : List String}
    (hfaults : Finding.faults (p.findings names) = []) {ρ : Renaming}
    (hnew : Stmt.AllAvoid ρ.new p) : Stmt.AllAlike ρ.leeway .top p (p.rename ρ) :=
  FitsStmts.rename_alike (K := fun _ ↦ True) (View.Pairs.top ρ)
    ((hproper.walk names).2 _ (List.isEmpty_iff.2 hfaults) fun _ _ ↦ trivial) hnew

/-- The findings of a program without faults are the same after a renaming. -/
theorem Program.findings_rename {p : Program} (hproper : Stmt.AllProper p) {names : List String}
    (hfaults : Finding.faults (p.findings names) = []) {ρ : Renaming}
    (hnew : Stmt.AllAvoid ρ.new p) : (p.rename ρ).findings names = p.findings names :=
  (Program.rename_alike hproper hfaults hnew).findings hnew (.global rfl rfl rfl) {} hfaults

/-- At any moment between two programs, in a program that is accepted any local variable may get a
name that occurs nowhere in the program. It is accepted then with the same distances, and comes out
as before after any number of steps: it prints the same, reads the same, and ends in the same way,
with the same fault at the same place if there is one. Only an anomaly may name the variable. -/
theorem Moment.Reached.execute_rename {s : Session} {places : List Place}
    (h : (Moment.idle s places).Reached) {text : String} {p : Program}
    (hread : Program.read text s.source.utf8ByteSize = .ok p) {table : Distances}
    (htable : p.distances s.globalNames = .ok table) (ρ : Renaming)
    (hnew : Stmt.AllAvoid ρ.new p) :
    (p.rename ρ).distances s.globalNames = .ok table ∧
      ∀ n w, OutcomeAlike ρ.leeway ((s.run n w text).1, (s.run n w text).2.1)
        (s.execute n w (p.rename ρ)) := by
  have hproper := Program.proper_of_read hread
  have hfaults := List.isEmpty_iff.1 (Program.faults_of_distances htable).1
  have halike := Program.rename_alike hproper hfaults hnew
  have htable' : (p.rename ρ).distances s.globalNames = .ok table := by
    unfold Program.distances at htable ⊢
    rw [Program.findings_rename hproper hfaults hnew]
    exact htable
  refine ⟨htable', fun n w ↦ ?_⟩
  obtain ⟨n', houtcome, hn⟩ := (h.execute_alike hread halike htable htable').1 n w
  obtain rfl : n' = n := hn.resolve_left id
  rwa [Session.execute_of_read hread] at houtcome

/-- A variable of a block that has the name of a global one. -/
theorem Moment.Reached.execute_rename_block : ∃ (text : String) (p : Program) (ρ : Renaming),
    text = "var x; \x7b var x = true; x = x; print x; \x7d print x;" ∧
      Program.read text Session.new.source.utf8ByteSize = .ok p ∧
      p.rename ρ = [.varDecl ⟨0, 6⟩ "x" none,
        .block ⟨7, 40⟩ [.varDecl ⟨9, 22⟩ "y" (some (.literal ⟨17, 21⟩ (.bool true))),
          .expression ⟨23, 29⟩ (.assign ⟨23, 28⟩ "y" (.var ⟨27, 28⟩ "y")),
          .print ⟨30, 38⟩ (.var ⟨36, 37⟩ "y")],
        .print ⟨41, 49⟩ (.var ⟨47, 48⟩ "x")] ∧
      ∀ n w, OutcomeAlike ρ.leeway ((Session.new.run n w text).1, (Session.new.run n w text).2.1)
        (Session.new.execute n w (p.rename ρ)) := by
  have hread : Program.read "var x; \x7b var x = true; x = x; print x; \x7d print x;"
      Session.new.source.utf8ByteSize = .ok [.varDecl ⟨0, 6⟩ "x" none,
        .block ⟨7, 40⟩ [.varDecl ⟨9, 22⟩ "x" (some (.literal ⟨17, 21⟩ (.bool true))),
          .expression ⟨23, 29⟩ (.assign ⟨23, 28⟩ "x" (.var ⟨27, 28⟩ "x")),
          .print ⟨30, 38⟩ (.var ⟨36, 37⟩ "x")],
        .print ⟨41, 49⟩ (.var ⟨47, 48⟩ "x")] := by
    decide +kernel
  have htable : Program.distances Session.new.globalNames [.varDecl ⟨0, 6⟩ "x" none,
        .block ⟨7, 40⟩ [.varDecl ⟨9, 22⟩ "x" (some (.literal ⟨17, 21⟩ (.bool true))),
          .expression ⟨23, 29⟩ (.assign ⟨23, 28⟩ "x" (.var ⟨27, 28⟩ "x")),
          .print ⟨30, 38⟩ (.var ⟨36, 37⟩ "x")],
        .print ⟨41, 49⟩ (.var ⟨47, 48⟩ "x")] =
      .ok [(⟨27, 28⟩, 0), (⟨23, 28⟩, 0), (⟨36, 37⟩, 0)] := by
    rw [Session.globalNames_new]
    rfl
  let ρ : Renaming := ⟨⟨9, 22⟩, "x", "y", ⟨by decide, by decide⟩, ⟨by decide, by decide⟩⟩
  refine ⟨_, _, ρ, rfl, hread, rfl, (Moment.Reached.execute_rename .refl hread htable ρ ?_).2⟩
  simp [Stmt.AllAvoid, Stmt.Avoids, Expr.Avoids?, Expr.Avoids, ρ]

end LoxLang
