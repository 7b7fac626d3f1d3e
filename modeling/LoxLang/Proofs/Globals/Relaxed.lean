import LoxLang.Program.Equality
import LoxLang.Proofs.OwnInitializers

/-!
# More global names

The names that are bound before a program is walked matter for one check alone. If more of them are
known, then the walk finds the same distances, and the same faults except for some that are left
out: faults of a name that is known in addition, which is read outside of all local scopes while it
is declared anew (`Program.refusals_relaxed`). Since a session never unbinds a global name, a
program that it would accept once it accepts at any later time, with the same distances.

Inside of a local scope nothing at all depends on the global names (`Scopes.Within.kept`). Outside,
the two walks differ in the global scope only, and there at most in names that are finished for the
one and not for the other (`Scopes.Relaxes`).
-/

namespace LoxLang

/-! ### Lists with items left out -/

/-- The second list is the first one with some items left out, each of which has `P`. -/
inductive Drops {α : Type} (P : α → Prop) : List α → List α → Prop
  | nil : Drops P [] []
  | keep {x : α} {xs ys : List α} (h : Drops P xs ys) : Drops P (x :: xs) (x :: ys)
  | drop {x : α} {xs ys : List α} (hx : P x) (h : Drops P xs ys) : Drops P (x :: xs) ys

namespace Drops

variable {α : Type} {P Q : α → Prop} {xs xs' ys ys' : List α}

theorem refl (P : α → Prop) (xs : List α) : Drops P xs xs := by
  induction xs with
  | nil => exact .nil
  | cons x xs ih => exact .keep ih

/-- What is dropped in two parts is dropped in both together. -/
theorem append (h : Drops P xs ys) (h' : Drops P xs' ys') : Drops P (xs ++ xs') (ys ++ ys') := by
  induction h with
  | nil => exact h'
  | keep _ ih => exact .keep ih
  | drop hx _ ih => exact .drop hx ih

theorem mono (h : Drops P xs ys) (hPQ : ∀ x, P x → Q x) : Drops Q xs ys := by
  induction h with
  | nil => exact .nil
  | keep _ ih => exact .keep ih
  | drop hx _ ih => exact .drop (hPQ _ hx) ih

/-- What is left is in the order in which it was. -/
theorem sublist (h : Drops P xs ys) : ys.Sublist xs := by
  induction h with
  | nil => exact .slnil
  | keep _ ih => exact ih.cons_cons _
  | drop _ _ ih => exact ih.cons _

end Drops

/-! ### References at the top of a program -/

mutual

/-- The variables that a statement reads by plain references outside of all local scopes, its
superclass among them. -/
def Stmt.openReads : Stmt → List Name
  | .expression _ value | .print _ value => value.reads
  | .varDecl _ _ value | .returns _ value => value.elim [] Expr.reads
  | .classDecl _ _ parent _ => parent.toList
  | .conditional _ condition yes no => condition.reads ++ yes.openReads ++ Stmt.openReads? no
  | .whileLoop _ condition body => condition.reads ++ body.openReads
  | .funDecl _ | .block _ _ | .forLoop _ _ _ _ _ => []

@[inherit_doc Stmt.openReads]
def Stmt.openReads? : Option Stmt → List Name
  | none => []
  | some s => s.openReads

end

/-- The variables that a program reads by plain references outside of all local scopes. -/
def Program.openReads (p : Program) : List Name := p.flatMap Stmt.openReads

/-! ### Inside of local scopes -/

namespace Scopes

open Finding

/-- The same local scopes are open, at least one. -/
structure Within (S T : Scopes) : Prop where
  locals : T.locals = S.locals
  inside : S.locals ≠ []

/-- Inside of a local scope, two walks find the same. -/
theorem Within.kept : Kept Within Eq where
  locals h := h.locals
  push h scope := ⟨congrArg (scope :: ·) h.locals, List.cons_ne_nil _ _⟩
  declare {S T} h x := by
    obtain ⟨scope, rest, hS⟩ := List.exists_cons_of_ne_nil h.inside
    have hT := h.locals.trans hS
    unfold Scopes.declare
    rw [hS, hT]
    exact ⟨rfl, List.cons_ne_nil _ _⟩
  define {S T} h x := by
    obtain ⟨scope, rest, hS⟩ := List.exists_cons_of_ne_nil h.inside
    have hT := h.locals.trans hS
    unfold Scopes.define
    rw [hS, hT]
    exact ⟨rfl, List.cons_ne_nil _ _⟩
  refl _ := rfl
  append h h' := congrArg₂ (· ++ ·) h h'
  reading {S T} h span x := by
    obtain ⟨scope, rest, hS⟩ := List.exists_cons_of_ne_nil h.inside
    have hunfinished : T.unfinished x = S.unfinished x := by
      unfold unfinished innermost
      rw [h.locals, hS]
      rfl
    unfold Finding.reading
    rw [hunfinished, reference_of_locals h.locals]

/-! ### Outside of local scopes -/

/-- Only the global scope is open, and each of its names is as far in `T` as in `S`, or it has `P`
and is finished in `T`. -/
structure Relaxes (P : String → Prop) (S T : Scopes) : Prop where
  top : S.locals = []
  top' : T.locals = []
  globals : ∀ x, T.globals.lookup x = S.globals.lookup x ∨ P x ∧ T.globals.lookup x = some true

/-- The first findings are the second ones without some faults. What is left out is the fault of a
name that has `P` and is read by one of the references. -/
structure Loses (P : String → Prop) (refs : List Name) (found' found : List Finding) : Prop where
  distances : Finding.distances found' = Finding.distances found
  faults : Drops (fun f ↦ ∃ r ∈ refs, P r.text ∧ f = ⟨.readInOwnInitializer r.text, r.span⟩)
    (Finding.faults found) (Finding.faults found')

namespace Loses

variable {P : String → Prop} {refs refs' : List Name} {found found' others others' : List Finding}

theorem of_eq (h : found' = found) : Loses P refs found' found := by
  subst h
  exact ⟨rfl, .refl _ _⟩

/-- The findings of two parts lose what those of each lose. -/
theorem append (h : Loses P refs found' found) (h' : Loses P refs' others' others) :
    Loses P (refs ++ refs') (found' ++ others') (found ++ others) := by
  refine ⟨?_, ?_⟩
  · rw [distances_append, distances_append, h.distances, h'.distances]
  · rw [faults_append, faults_append]
    refine (h.faults.mono ?_).append (h'.faults.mono ?_)
    · rintro f ⟨r, hr, hf⟩
      exact ⟨r, List.mem_append_left _ hr, hf⟩
    · rintro f ⟨r, hr, hf⟩
      exact ⟨r, List.mem_append_right _ hr, hf⟩

/-- Findings may lose the faults of more references. -/
theorem mono (h : Loses P refs found' found) (hrefs : refs ⊆ refs') :
    Loses P refs' found' found := by
  refine ⟨h.distances, h.faults.mono ?_⟩
  rintro f ⟨r, hr, hf⟩
  exact ⟨r, hrefs hr, hf⟩

/-- Behind what both walks find. -/
theorem after (h : others' = others) (h' : Loses P refs found' found) :
    Loses P refs (others' ++ found') (others ++ found) := by
  have hothers : Loses P [] others' others := of_eq h
  exact hothers.append h'

/-- Before what both walks find. -/
theorem before (h' : Loses P refs found' found) (h : others' = others) :
    Loses P refs (found' ++ others') (found ++ others) := by
  have hothers : Loses P [] others' others := of_eq h
  exact (h'.append hothers).mono (by simp)

end Loses

namespace Relaxes

variable {P : String → Prop} {S T : Scopes}

theorem locals (h : S.Relaxes P T) : T.locals = S.locals := h.top'.trans h.top.symm

/-- In a local scope, both walks see the same names. -/
theorem push (h : S.Relaxes P T) (scope : Scope) : (S.push scope).Within (T.push scope) :=
  ⟨congrArg (scope :: ·) h.locals, List.cons_ne_nil _ _⟩

theorem declare (h : S.Relaxes P T) (x : String) : (S.declare x).Relaxes P (T.declare x) := by
  refine ⟨locals_declare h.top x, locals_declare h.top' x, fun y ↦ ?_⟩
  rw [lookup_declare h.top, lookup_declare h.top']
  split
  · rename_i hy
    subst hy
    rcases h.globals y with hy | ⟨hP, hy⟩
    · exact .inl (by rw [hy])
    · exact .inr ⟨hP, by rw [hy]; rfl⟩
  · exact h.globals y

theorem define (h : S.Relaxes P T) (x : String) : (S.define x).Relaxes P (T.define x) := by
  refine ⟨locals_define h.top x, locals_define h.top' x, fun y ↦ ?_⟩
  rw [lookup_define h.top, lookup_define h.top']
  split
  · exact .inl rfl
  · exact h.globals y

/-- A reference is resolved alike, since only local scopes count. -/
theorem reference (h : S.Relaxes P T) (span : Span) (x : String) :
    Finding.reference T span x = Finding.reference S span x :=
  reference_of_locals h.locals span x

/-- What is unfinished is a global name. -/
theorem unfinished_eq (h : S.Relaxes P T) (x : String) :
    S.unfinished x = (S.globals.lookup x == some false) ∧
      T.unfinished x = (T.globals.lookup x == some false) := by
  unfold unfinished innermost
  rw [h.top, h.top']
  exact ⟨rfl, rfl⟩

/-- A name that is finished for the second walk only is read without the fault. -/
theorem reading (h : S.Relaxes P T) (span : Span) (x : String) :
    Loses P [⟨x, span⟩] (Finding.reading T span x) (Finding.reading S span x) := by
  refine Loses.before ?_ (h.reference span x)
  obtain ⟨hS, hT⟩ := h.unfinished_eq x
  rw [hS, hT]
  rcases h.globals x with hx | ⟨hP, hx⟩
  · exact .of_eq (by rw [hx])
  · rw [hx]
    cases S.globals.lookup x == some false with
    | true => exact ⟨rfl, .drop ⟨_, List.mem_singleton_self _, hP, rfl⟩ .nil⟩
    | false => exact .of_eq rfl

/-- A declaration keeps the relation, and has no fault that depends on global names. -/
theorem declaring (h : S.Relaxes P T) (span : Span) (x : String) :
    (Finding.declaring S span x).1.Relaxes P (Finding.declaring T span x).1 ∧
      (Finding.declaring T span x).2 = (Finding.declaring S span x).2 := by
  refine ⟨h.declare x, ?_⟩
  unfold Finding.declaring
  rw [declarationFault?_of_locals h.locals]

/-- A declaration that is finished at once keeps the relation. -/
theorem defining (h : S.Relaxes P T) (span : Span) (x : String) :
    (Finding.defining S span x).1.Relaxes P (Finding.defining T span x).1 ∧
      (Finding.defining T span x).2 = (Finding.defining S span x).2 := by
  have ⟨h', hfound⟩ := h.declaring span x
  exact ⟨h'.define x, hfound⟩

/-- The scopes around the methods of a class are local. -/
theorem methodScopes (h : S.Relaxes P T) (inherits : Bool) :
    (Finding.methodScopes S inherits).Within (Finding.methodScopes T inherits) := by
  unfold Finding.methodScopes
  cases inherits with
  | true => exact Within.kept.push (h.push _) _
  | false => exact h.push _

/-- In a function everything is local. -/
theorem ofFunction (h : S.Relaxes P T) (cx : Surroundings) (kind : FunctionKind) (f : FunDecl) :
    Finding.ofFunction cx T kind f = Finding.ofFunction cx S kind f := by
  obtain ⟨span, name, params, body⟩ := f
  obtain ⟨h', hparams⟩ := Within.kept.parameters (h.push []) params
  rw [Finding.ofFunction, Finding.ofFunction]
  exact congrArg₂ (· ++ ·) hparams (Within.kept.ofStmts h' _ body).2

/-- A superclass loses at most the fault of being read too early. -/
theorem superclass (h : S.Relaxes P T) (x : String) (parent : Option Name) :
    Loses P parent.toList (parent.elim [] (Finding.superclass T x))
      (parent.elim [] (Finding.superclass S x)) := by
  cases parent with
  | none => exact .of_eq rfl
  | some parent => exact Loses.after rfl (h.reading parent.span parent.text)

mutual

/-- The findings in an expression lose nothing but early reads. -/
theorem ofExpr {S T : Scopes} (h : S.Relaxes P T) (cx : Surroundings) (e : Expr) :
    Loses P e.reads (Finding.ofExpr cx T e) (Finding.ofExpr cx S e) :=
  match e with
  | .literal _ _ => .of_eq rfl
  | .var span x => h.reading span x
  | .assign span x value => (h.ofExpr cx value).before (h.reference span x)
  | .step span _ _ x => .of_eq (h.reference span x)
  | .group _ inner => h.ofExpr cx inner
  | .unary _ _ operand => h.ofExpr cx operand
  | .binary _ _ left right => (h.ofExpr cx left).append (h.ofExpr cx right)
  | .call _ callee arguments => (h.ofExpr cx callee).append (h.ofExprs cx arguments)
  | .property _ object _ => h.ofExpr cx object
  -- the value is visited before the object
  | .setProperty _ object _ value =>
    ((h.ofExpr cx value).append (h.ofExpr cx object)).mono List.perm_append_comm.subset
  | .this span => .of_eq (congrArg (_ ++ ·) (h.reference span "this"))
  | .super span _ => .of_eq (congrArg (_ ++ ·) (h.reference span "super"))
  | .lambda f => .of_eq (h.ofFunction cx .plain f)

theorem ofExprs {S T : Scopes} (h : S.Relaxes P T) (cx : Surroundings) (es : List Expr) :
    Loses P (Expr.allReads es) (Finding.ofExprs cx T es) (Finding.ofExprs cx S es) :=
  match es with
  | [] => .of_eq rfl
  | e :: rest => (h.ofExpr cx e).append (h.ofExprs cx rest)

end

theorem ofExpr? (h : S.Relaxes P T) (cx : Surroundings) (e : Option Expr) :
    Loses P (e.elim [] Expr.reads) (Finding.ofExpr? cx T e) (Finding.ofExpr? cx S e) := by
  cases e with
  | none => exact .of_eq rfl
  | some e => exact h.ofExpr cx e

mutual

/-- A statement keeps the relation, and its findings lose nothing but early reads. -/
theorem ofStmt {S T : Scopes} (h : S.Relaxes P T) (cx : Surroundings) (s : Stmt) :
    (Finding.ofStmt cx S s).1.Relaxes P (Finding.ofStmt cx T s).1 ∧
      Loses P s.openReads (Finding.ofStmt cx T s).2 (Finding.ofStmt cx S s).2 :=
  match s with
  | .expression _ value => ⟨h, h.ofExpr cx value⟩
  | .print _ value => ⟨h, h.ofExpr cx value⟩
  | .varDecl span x value =>
    have ⟨h', hfound⟩ := h.declaring span x
    ⟨h'.define x, .after hfound (h'.ofExpr? cx value)⟩
  | .funDecl f =>
    have ⟨h', hfound⟩ := h.defining f.span f.name
    ⟨h', .after hfound (.of_eq (h'.ofFunction cx .plain f))⟩
  | .classDecl span x parent methods =>
    have ⟨h', hfound⟩ := h.defining span x
    ⟨h', (Loses.after hfound (h'.superclass x parent)).before
      (Within.kept.ofMethods (h'.methodScopes parent.isSome) _ methods)⟩
  | .block _ body => ⟨h, .of_eq (Within.kept.ofStmts (h.push []) cx body).2⟩
  | .conditional _ condition yes no =>
    have ⟨h', hyes⟩ := h.ofStmt cx yes
    have ⟨h'', hno⟩ := h'.ofStmt? cx no
    ⟨h'', ((h.ofExpr cx condition).append hyes).append hno⟩
  | .whileLoop _ condition body =>
    have ⟨h', hbody⟩ := h.ofStmt cx body
    ⟨h', (h.ofExpr cx condition).append hbody⟩
  | .forLoop _ init condition step body =>
    have k := Within.kept
    have ⟨h', hinit⟩ := k.ofStmt? (h.push []) cx init
    ⟨h, .of_eq (k.append (k.append (k.append hinit (k.ofExpr? h' cx condition))
      (k.ofExpr? h' cx step)) (k.ofStmt h' cx body).2)⟩
  | .returns _ value => ⟨h, .after rfl (h.ofExpr? cx value)⟩

theorem ofStmt? {S T : Scopes} (h : S.Relaxes P T) (cx : Surroundings) (s : Option Stmt) :
    (Finding.ofStmt? cx S s).1.Relaxes P (Finding.ofStmt? cx T s).1 ∧
      Loses P (Stmt.openReads? s) (Finding.ofStmt? cx T s).2 (Finding.ofStmt? cx S s).2 :=
  match s with
  | none => ⟨h, .of_eq rfl⟩
  | some s => h.ofStmt cx s

end

/-- The findings in a program lose nothing but early reads. -/
theorem ofStmts (h : S.Relaxes P T) (cx : Surroundings) (p : Program) :
    Loses P p.openReads (Finding.ofStmts cx T p).2 (Finding.ofStmts cx S p).2 := by
  induction p generalizing S T with
  | nil => exact .of_eq rfl
  | cons s rest ih =>
    obtain ⟨h', hs⟩ := h.ofStmt cx s
    exact hs.append (ih h')

/-- The global scope with more names that are bound. -/
theorem ofGlobals {known more : List String} (h : known ⊆ more) :
    (Scopes.ofGlobals known).Relaxes (fun x ↦ x ∈ more ∧ x ∉ known) (.ofGlobals more) := by
  have hlookup (names : List String) (x : String) :
      (Scopes.ofGlobals names).globals.lookup x = if x ∈ names then some true else none := by
    split
    · rename_i hx
      exact lookup_ofGlobals.2 hx
    · rename_i hx
      cases hb : (Scopes.ofGlobals names).globals.lookup x with
      | none => rfl
      | some b =>
        cases b with
        | true => exact absurd (lookup_ofGlobals.1 hb) hx
        | false => exact absurd hb ((Settled.ofGlobals names).finished x)
  refine ⟨rfl, rfl, fun x ↦ ?_⟩
  rw [hlookup, hlookup]
  by_cases hknown : x ∈ known
  · exact .inl (by rw [if_pos hknown, if_pos (h hknown)])
  · by_cases hmore : x ∈ more
    · exact .inr ⟨⟨hmore, hknown⟩, if_pos hmore⟩
    · exact .inl (by rw [if_neg hknown, if_neg hmore])

end Relaxes

end Scopes

/-! ### Programs -/

/-- With more global names, the findings of a program lose nothing but early reads of these
names. -/
theorem Program.loses_findings (p : Program) {known more : List String} (h : known ⊆ more) :
    Scopes.Loses (fun x ↦ x ∈ more ∧ x ∉ known) p.openReads (p.findings more)
      (p.findings known) :=
  (Scopes.Relaxes.ofGlobals h).ofStmts {} p

/-- A program that is accepted is accepted with more global names, and its distances are the
same. -/
theorem Program.distances_of_subset {p : Program} {known more : List String} (h : known ⊆ more)
    {table : Distances} (hp : p.distances known = .ok table) : p.distances more = .ok table := by
  have hloses := p.loses_findings h
  unfold distances at hp ⊢
  simp only at hp ⊢
  split at hp
  · rename_i hnone
    have hfaults := hloses.faults.sublist
    rw [List.isEmpty_iff.1 hnone, List.sublist_nil] at hfaults
    rw [hfaults, hloses.distances]
    exact hp
  · cases hp

namespace Moment

/-- The names of the global scope. -/
def globalNames (M : Moment) : List String := (M.heap.frame Heap.globals.frame).names

/-- A session never unbinds a global name. -/
theorem Later.globalNames_subset {M M' : Moment} (h : M.Later M') (hM : M.Reached) :
    M.globalNames ⊆ M'.globalNames := by
  induction h with
  | refl => exact List.Subset.refl _
  | @tail N N' hlater hnext ih =>
    refine List.Subset.trans ih ?_
    cases hnext with
    | @refuse s s' places text faults hload | @accept s s' places text p hload =>
      have hheap := Session.heap_of_load hload
      show (s.heap.frame 0).names ⊆ (s'.heap.frame 0).names
      rw [hheap]
      exact List.Subset.refl _
    | step hstep =>
      exact fun x hx ↦
        Table.mem_names.2 ((hM.later hlater).isSome_step hstep (Table.mem_names.1 hx))
    | leave => exact List.Subset.refl _

end Moment

/-- More global names relax one check. The faults with them are those without them, except that
some are left out, each for a plain reference at the top of the program to one of the names that
come in addition; and the distances are the same. A program that a session would accept at one
moment it accepts at every later one, with the same distances. -/
theorem Program.refusals_relaxed (p : Program) :
    (∀ {known more : List String}, known ⊆ more →
      (p.refusals more).Sublist (p.refusals known) ∧
      Drops (fun f ↦ ∃ r ∈ p.openReads, (r.text ∈ more ∧ r.text ∉ known) ∧
        f = ⟨.readInOwnInitializer r.text, r.span⟩) (p.refusals known) (p.refusals more) ∧
      (∀ table table', p.distances known = .ok table → p.distances more = .ok table' →
        table' = table)) ∧
    ∀ {M M' : Moment}, M.Reached → M.Later M' → ∀ table,
      p.distances M.globalNames = .ok table → p.distances M'.globalNames = .ok table := by
  refine ⟨fun {known more} h ↦ ?_, fun hM hlater table hp ↦
    distances_of_subset (hlater.globalNames_subset hM) hp⟩
  have hdrops := (p.loses_findings h).faults
  rw [← refusals_eq, ← refusals_eq] at hdrops
  refine ⟨hdrops.sublist, hdrops, fun table table' hp hp' ↦ ?_⟩
  exact Except.ok.inj (hp'.symm.trans (distances_of_subset h hp))

/-- A variable in its own initializer is refused before the variable is bound, and not after. A
block with a local variable is accepted at both moments. -/
theorem Program.refusals_relaxed_again : ∃ (M : Moment) (p q : Program) (table : Distances),
    M.Reached ∧ p.refusals Session.new.globalNames = [⟨.readInOwnInitializer "x", ⟨15, 16⟩⟩] ∧
      p.refusals M.globalNames = [] ∧
      Drops (fun f ↦ ∃ r ∈ p.openReads, (r.text ∈ M.globalNames ∧
        r.text ∉ Session.new.globalNames) ∧ f = ⟨.readInOwnInitializer r.text, r.span⟩)
        (p.refusals Session.new.globalNames) (p.refusals M.globalNames) ∧
      table ≠ [] ∧ q.distances Session.new.globalNames = .ok table ∧
      q.distances M.globalNames = .ok table := by
  let p : Program := [.varDecl ⟨7, 17⟩ "x" (some (.var ⟨15, 16⟩ "x"))]
  let q : Program := [.block ⟨7, 30⟩ [.varDecl ⟨9, 19⟩ "y" (some (.var ⟨17, 18⟩ "x")),
    .print ⟨20, 28⟩ (.var ⟨26, 27⟩ "y")]]
  have hload : Session.new.load "var x;" =
      (⟨"var x;\n", [], Session.new.heap⟩, .ok [.varDecl ⟨0, 6⟩ "x" none]) :=
    Session.load_of_read Session.globalNames_new (by decide +kernel) rfl rfl rfl
  let M := (Moment.running ⟨"var x;\n", [], Session.new.heap⟩
    (.start Session.new.heap [.varDecl ⟨0, 6⟩ "x" none]) []).ahead 3
  have hlater : (Moment.idle .new []).Later M :=
    (Moment.later_ahead 3 _).head (.accept hload)
  have hsubset : Session.new.globalNames ⊆ M.globalNames := hlater.globalNames_subset .refl
  have hp : p.refusals Session.new.globalNames = [⟨.readInOwnInitializer "x", ⟨15, 16⟩⟩] := by
    rw [Session.globalNames_new]
    rfl
  have hnames : M.globalNames = ["clock", "input", "x"] :=
    Table.names_eq (by decide +kernel) (by decide +kernel)
  have hp' : p.refusals M.globalNames = [] := by
    rw [hnames]
    rfl
  have hq : q.distances Session.new.globalNames = .ok [(⟨26, 27⟩, 0)] := by
    rw [Session.globalNames_new]
    rfl
  exact ⟨M, p, q, _, hlater, hp, hp', ((refusals_relaxed p).1 hsubset).2.1, List.cons_ne_nil _ _,
    hq, (refusals_relaxed q).2 .refl hlater _ hq⟩

end LoxLang
