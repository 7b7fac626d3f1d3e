import LoxLang.Program.Equality
import LoxLang.Proofs.Alike.Faults
import LoxLang.Proofs.Alike.Runs

/-!
# Loops that are written out

A `for` loop is short for a block with its first clause and a `while` loop. If loops of a program
are replaced by what they are short for, the same faults are found in it, and if it is accepted it
runs as before (`Moment.Reached.execute_desugar`): it writes the same, reads the same, ends in the
same way, and goes on for ever if it did. The distances of its references are others, since there
is one more scope around every body.
-/

namespace LoxLang

/-! ### Replacing loops -/

section Desugar

variable (pick : Span → Option LoopSpans)

mutual

/-- The expression with the loops in it replaced for which `pick` has places. -/
def Expr.desugar : Expr → Expr
  | .literal span v => .literal span v
  | .var span x => .var span x
  | .assign span x v => .assign span x v.desugar
  | .step span side op x => .step span side op x
  | .group span e => .group span e.desugar
  | .unary span op e => .unary span op e.desugar
  | .binary span op l r => .binary span op l.desugar r.desugar
  | .call span e es => .call span e.desugar (Expr.desugarAll es)
  | .property span e x => .property span e.desugar x
  | .setProperty span e x v => .setProperty span e.desugar x v.desugar
  | .this span => .this span
  | .super span x => .super span x
  | .lambda f => .lambda f.desugar

@[inherit_doc Expr.desugar]
def Expr.desugarAll : List Expr → List Expr
  | [] => []
  | e :: es => e.desugar :: Expr.desugarAll es

@[inherit_doc Expr.desugar]
def Expr.desugar? : Option Expr → Option Expr
  | none => none
  | some e => some e.desugar

/-- The function with the loops in it replaced for which `pick` has places. -/
def FunDecl.desugar : FunDecl → FunDecl
  | .mk span n ps body => .mk span n ps (Stmt.desugarAll body)

@[inherit_doc FunDecl.desugar]
def FunDecl.desugarAll : List FunDecl → List FunDecl
  | [] => []
  | f :: fs => f.desugar :: FunDecl.desugarAll fs

/-- The statement with the loops in it replaced for which `pick` has places. -/
def Stmt.desugar : Stmt → Stmt
  | .expression span v => .expression span v.desugar
  | .print span v => .print span v.desugar
  | .varDecl span x v => .varDecl span x (Expr.desugar? v)
  | .funDecl f => .funDecl f.desugar
  | .classDecl span n parent fs => .classDecl span n parent (FunDecl.desugarAll fs)
  | .block span body => .block span (Stmt.desugarAll body)
  | .conditional span c yes no => .conditional span c.desugar yes.desugar (Stmt.desugar? no)
  | .whileLoop span c body => .whileLoop span c.desugar body.desugar
  | .forLoop span i c u body =>
    match pick span with
    | none =>
      .forLoop span (Stmt.desugar? i) (Expr.desugar? c) (Expr.desugar? u) body.desugar
    | some places =>
      .desugared places (Stmt.desugar? i) (Expr.desugar? c) (Expr.desugar? u) body.desugar
  | .returns span v => .returns span (Expr.desugar? v)

@[inherit_doc Stmt.desugar]
def Stmt.desugarAll : List Stmt → List Stmt
  | [] => []
  | s :: ss => s.desugar :: Stmt.desugarAll ss

@[inherit_doc Stmt.desugar]
def Stmt.desugar? : Option Stmt → Option Stmt
  | none => none
  | some s => some s.desugar

end

/-- The program with the loops in it replaced for which `pick` has places. -/
def Program.desugar (p : Program) : Program := Stmt.desugarAll pick p

end Desugar

variable {pick : Span → Option LoopSpans}

theorem FunDecl.name_desugar (f : FunDecl) : (f.desugar pick).name = f.name := by
  cases f
  rfl

/-- Replacing loops changes no declaration. -/
theorem Stmt.declares_desugar (s : Stmt) : (s.desugar pick).declares = s.declares := by
  cases s with
  | funDecl f => exact congrArg some f.name_desugar
  | forLoop span i c u body =>
    unfold desugar
    cases pick span <;> rfl
  | _ => rfl

theorem Stmt.declares_desugar? (s : Option Stmt) :
    (Stmt.desugar? pick s).bind Stmt.declares = s.bind Stmt.declares := by
  cases s with
  | none => rfl
  | some s => exact s.declares_desugar

/-! ### What stays alike -/

mutual

/-- A proper expression is alike to itself with loops replaced. -/
theorem Expr.Proper.desugar_alike {Γ : Pairing} (hΓ : Γ.IsDiagonal) {e : Expr} (h : e.Proper) :
    Expr.Alike .written Γ e (e.desugar pick) :=
  match e, h with
  | .literal .., _ => .literal
  | .var .., _ => .var (hΓ.refers _)
  | .assign .., h => .assign (hΓ.refers _) (h.2.desugar_alike hΓ)
  | .step .., _ => .step (hΓ.refers _)
  | .group _ e, h => .group (Expr.Proper.desugar_alike hΓ (e := e) h)
  | .unary _ _ e, h => .unary (Expr.Proper.desugar_alike hΓ (e := e) h)
  | .binary .., h => .binary (h.1.desugar_alike hΓ) (h.2.desugar_alike hΓ)
  | .call .., h => .call (h.1.desugar_alike hΓ) (Expr.AllProper.desugar_alike hΓ h.2)
  | .property _ e _, h => .property (Expr.Proper.desugar_alike hΓ (e := e) h)
  | .setProperty .., h => .setProperty (h.1.desugar_alike hΓ) (h.2.desugar_alike hΓ)
  | .this _, _ => .this (hΓ.paired _)
  | .super _ _, _ => .super (hΓ.paired _) (hΓ.paired _)
  | .lambda f, h => .lambda (FunDecl.Proper.desugar_alike hΓ (f := f) h)

theorem Expr.AllProper.desugar_alike {Γ : Pairing} (hΓ : Γ.IsDiagonal) {es : List Expr}
    (h : Expr.AllProper es) : Expr.AllAlike .written Γ es (Expr.desugarAll pick es) :=
  match es, h with
  | [], _ => .nil
  | _ :: _, h => .cons (h.1.desugar_alike hΓ) (Expr.AllProper.desugar_alike hΓ h.2)

theorem Expr.Proper?.desugar_alike {Γ : Pairing} (hΓ : Γ.IsDiagonal) {e : Option Expr}
    (h : Expr.Proper? e) : Expr.Alike? .written Γ e (Expr.desugar? pick e) :=
  match e, h with
  | none, _ => .none
  | some e, h => .some (Expr.Proper.desugar_alike hΓ (e := e) h)

theorem FunDecl.Proper.desugar_alike {Γ : Pairing} (hΓ : Γ.IsDiagonal) {f : FunDecl}
    (h : f.Proper) : FunDecl.Alike .written Γ f (f.desugar pick) :=
  match f, h with
  | .mk _ _ ps _, h =>
    .mk (List.forall₂_same.2 fun _ _ ↦ ⟨rfl, rfl⟩)
      (Stmt.AllProper.desugar_alike (hΓ.inner.bindAll ps) h.2)

theorem FunDecl.AllProper.desugar_alike {Γ : Pairing} (hΓ : Γ.IsDiagonal) {fs : List FunDecl}
    (h : FunDecl.AllProper fs) : FunDecl.AllAlike .written Γ fs (FunDecl.desugarAll pick fs) :=
  match fs, h with
  | [], _ => .nil
  | _ :: _, h =>
    .cons (h.1.desugar_alike (hΓ.bind "this")) (FunDecl.AllProper.desugar_alike hΓ h.2)

/-- A proper statement is alike to itself with loops replaced. -/
theorem Stmt.Proper.desugar_alike {Γ : Pairing} (hΓ : Γ.IsDiagonal) {s : Stmt} (h : s.Proper) :
    Stmt.Alike .written Γ s (s.desugar pick) :=
  match s, h with
  | .expression _ v, h => .expression (Expr.Proper.desugar_alike hΓ (e := v) h)
  | .print _ v, h => .print (Expr.Proper.desugar_alike hΓ (e := v) h)
  | .varDecl _ x _, h =>
    .varDecl ((hΓ.declare x).refers x) (Expr.Proper?.desugar_alike (hΓ.declare x) h.2)
  | .funDecl f, h =>
    .funDecl ((hΓ.declare f.name).paired _) (h.2.desugar_alike (hΓ.declare f.name))
  | .classDecl _ n parent _, h =>
    .classDecl ((hΓ.declare n).paired n) (hΓ.declare n).superclass
      (FunDecl.AllProper.desugar_alike ((hΓ.declare n).ofClass parent) h.2)
  | .block _ _, h => .block (Stmt.AllProper.desugar_alike hΓ.inner h)
  | .conditional .., h =>
    .conditional (h.1.desugar_alike hΓ) (h.2.1.1.desugar_alike hΓ)
      (Stmt.Proper?.desugar_alike hΓ h.2.2.1) h.2.1.2 h.2.2.2
  | .whileLoop .., h => .whileLoop (h.1.desugar_alike hΓ) (h.2.1.desugar_alike hΓ) h.2.2
  | .forLoop span i c u body, ⟨⟨hi, hclause⟩, hc, hu, hbody, hdeclares⟩ => by
    have hi : Stmt.Alike? .written Γ.inner i (Stmt.desugar? pick i) :=
      Stmt.Proper?.desugar_alike hΓ.inner hi
    have hΓ' : (Γ.inner.after? i (Stmt.desugar? pick i)).IsDiagonal :=
      hΓ.inner.after? (Stmt.declares_desugar? i)
    replace hc : Expr.Alike? .written _ c (Expr.desugar? pick c) :=
      Expr.Proper?.desugar_alike hΓ' hc
    replace hu : Expr.Alike? .written _ u (Expr.desugar? pick u) :=
      Expr.Proper?.desugar_alike hΓ' hu
    replace hbody : Stmt.Alike .written _ body (body.desugar pick) := hbody.desugar_alike hΓ'
    unfold Stmt.desugar
    cases pick span with
    | none => exact .forLoop hi hc hu hbody hdeclares
    | some places => exact .desugared trivial hclause hi hc hu hbody hdeclares
  | .returns .., h => .returns (Expr.Proper?.desugar_alike hΓ h)

theorem Stmt.AllProper.desugar_alike {Γ : Pairing} (hΓ : Γ.IsDiagonal) {ss : List Stmt}
    (h : Stmt.AllProper ss) : Stmt.AllAlike .written Γ ss (Stmt.desugarAll pick ss) :=
  match ss, h with
  | [], _ => .nil
  | s :: _, h =>
    .cons (h.1.desugar_alike hΓ)
      (Stmt.AllProper.desugar_alike (hΓ.after s.declares_desugar) h.2)

theorem Stmt.Proper?.desugar_alike {Γ : Pairing} (hΓ : Γ.IsDiagonal) {s : Option Stmt}
    (h : Stmt.Proper? s) : Stmt.Alike? .written Γ s (Stmt.desugar? pick s) :=
  match s, h with
  | none, _ => .none
  | some s, h => .some (Stmt.Proper.desugar_alike hΓ (s := s) h)

end

/-! ### Loops and what they are short for -/

theorem VerdictAlike.eq_of_written {v v' : Verdict} (h : VerdictAlike .written v v') : v' = v := by
  cases h with
  | refl => rfl
  | missingLocal hx => rw [show _ = _ from hx]

theorem OutcomeAlike.eq_of_written {o o' : Verdict × World} (h : OutcomeAlike .written o o') :
    o' = o :=
  Prod.ext h.verdict.eq_of_written h.world

/-- A program is accepted if no fault is found in it. -/
theorem Program.exists_distances_iff {p : Program} {names : List String} :
    (∃ table, p.distances names = .ok table) ↔ Finding.faults (p.findings names) = [] := by
  unfold distances
  cases hfaults : Finding.faults (p.findings names) with
  | nil => simp [hfaults]
  | cons f fs => simp [hfaults]

/-- At any moment between two programs, in a program that is read any `for` loops may be replaced by
what they are short for. The same faults are found, so that it is accepted if it was; and then
whatever the one program has come to after some number of steps, the other comes to after some
number of steps. -/
theorem Moment.Reached.execute_desugar {s : Session} {places : List Place}
    (h : (Moment.idle s places).Reached) {text : String} {p : Program}
    (hread : Program.read text s.source.utf8ByteSize = .ok p) (pick : Span → Option LoopSpans) :
    (Finding.faults ((p.desugar pick).findings s.globalNames)).Perm
        (Finding.faults (p.findings s.globalNames)) ∧
      ((∃ table, (p.desugar pick).distances s.globalNames = .ok table) ↔
        ∃ table, p.distances s.globalNames = .ok table) ∧
      ((∃ table, p.distances s.globalNames = .ok table) → ∀ w,
        (∀ n, ∃ n', s.execute n' w (p.desugar pick) =
          ((s.run n w text).1, (s.run n w text).2.1)) ∧
        ∀ n', ∃ n, ((s.run n w text).1, (s.run n w text).2.1) =
          s.execute n' w (p.desugar pick)) := by
  have hproper := Program.proper_of_read hread
  have hdiagonal : Pairing.top.IsDiagonal := nofun
  have halike : Stmt.AllAlike .written .top p (p.desugar pick) := hproper.desugar_alike hdiagonal
  have hfaults : (Finding.faults ((p.desugar pick).findings s.globalNames)).Perm
      (Finding.faults (p.findings s.globalNames)) := halike.faults hproper (.refl _) {}
  have haccepted : (∃ table, (p.desugar pick).distances s.globalNames = .ok table) ↔
      ∃ table, p.distances s.globalNames = .ok table := by
    rw [Program.exists_distances_iff, Program.exists_distances_iff]
    exact ⟨fun hnil ↦ (hnil ▸ hfaults).symm.eq_nil, fun hnil ↦ (hnil ▸ hfaults).eq_nil⟩
  refine ⟨hfaults, haccepted, fun hok w ↦ ?_⟩
  obtain ⟨table, htable⟩ := hok
  obtain ⟨table', htable'⟩ := haccepted.2 ⟨table, htable⟩
  obtain ⟨hrun, hback⟩ := h.execute_alike hread halike htable htable'
  simp only [← Session.execute_of_read hread]
  refine ⟨fun n ↦ ?_, fun n' ↦ ?_⟩
  · obtain ⟨n', houtcome, -⟩ := hrun n w
    exact ⟨n', houtcome.eq_of_written⟩
  · obtain ⟨n, houtcome⟩ := hback n' w
    exact ⟨n, houtcome.eq_of_written.symm⟩

/-- A loop without a condition, which a function leaves with a closure over its variable. -/
theorem Moment.Reached.execute_desugar_return :
    ∃ (text : String) (p : Program) (places : LoopSpans), text =
        "fun f() \x7b for (var i;; i = f) if (i) return fun () \x7b return i; \x7d; \x7d f()();" ∧
      Program.read text Session.new.source.utf8ByteSize = .ok p ∧
      (∃ table, p.distances Session.new.globalNames = .ok table) ∧
      ∀ w n, ∃ n', Session.new.execute n' w (p.desugar fun _ ↦ some places) =
        ((Session.new.run n w text).1, (Session.new.run n w text).2.1) := by
  have hload : Session.new.load
      "fun f() \x7b for (var i;; i = f) if (i) return fun () \x7b return i; \x7d; \x7d f()();" =
      (⟨"fun f() \x7b for (var i;; i = f) if (i) return fun () \x7b return i; \x7d; \x7d f()();\n",
        [(⟨60, 61⟩, 1), (⟨34, 35⟩, 0), (⟨23, 28⟩, 0)], Session.new.heap⟩,
      .ok [.funDecl (.mk ⟨0, 67⟩ "f" []
        [.forLoop ⟨10, 65⟩ (some (.varDecl ⟨15, 21⟩ "i" none)) none
          (some (.assign ⟨23, 28⟩ "i" (.var ⟨27, 28⟩ "f")))
          (.conditional ⟨30, 65⟩ (.var ⟨34, 35⟩ "i")
            (.returns ⟨37, 65⟩ (some (.lambda (.mk ⟨44, 64⟩ "anonymous" []
              [.returns ⟨53, 62⟩ (some (.var ⟨60, 61⟩ "i"))])))) none)]),
        .expression ⟨68, 74⟩ (.call ⟨68, 73⟩ (.call ⟨68, 71⟩ (.var ⟨68, 69⟩ "f") []) [])]) :=
    Session.load_of_read Session.globalNames_new (by decide +kernel) rfl rfl rfl
  obtain ⟨hread, hfaults, -⟩ := Session.load_eq_ok.1 hload
  have haccepted := Program.exists_distances_iff.2 (List.isEmpty_iff.1 hfaults)
  let places : LoopSpans := ⟨⟨74, 75⟩, ⟨75, 76⟩, ⟨76, 77⟩, ⟨77, 78⟩, ⟨78, 79⟩⟩
  exact ⟨_, _, places, rfl, hread, haccepted, fun w ↦
    ((Moment.Reached.execute_desugar .refl hread _).2.2 haccepted w).1⟩

end LoxLang
