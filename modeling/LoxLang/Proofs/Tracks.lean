import LoxLang.Console.Command
import LoxLang.Program.Equality
import LoxLang.Proofs.Grammar.Total
import LoxLang.Proofs.Sessions
import LoxLang.Proofs.Stops

/-!
# The two tracks of faults

A source that fails does so in one of two ways. Either it is refused, for faults that are found in
its text: then nothing is executed, and nothing but the text of the session changes. Or its program
begins, and is stopped by a single fault of the other kind (`Session.tracks`). The exit status of a
command tells the two apart.

Each part of the way from the text to a program has one lemma, which says that its faults are found
in the text: the tokens, the grammar and the walk over the scopes. What stops a program is found by
the machine.
-/

namespace LoxLang

/-! ### Tokens and grammar -/

/-- A fault of the grammar is found in the text. -/
theorem Fault.isStatic_of_grammar {f : Fault} (h : f.cause.category = .grammar) :
    f.isStatic = true := by
  obtain ⟨cause, span⟩ := f
  cases cause <;> first | rfl | cases h

/-- The faults of tokens are of the grammar. -/
theorem Lexeme.category_report (stretch : Option Lexeme) (xs : List Lexeme) :
    ∀ f ∈ Program.faultsOf (report stretch xs), f.cause.category = .grammar := by
  have tail {item : Except Fault Lexeme} {items : List (Except Fault Lexeme)}
      (hitem : ∀ f, item = .error f → f.cause.category = .grammar)
      (hitems : ∀ f ∈ Program.faultsOf items, f.cause.category = .grammar) :
      ∀ f ∈ Program.faultsOf (item :: items), f.cause.category = .grammar := by
    intro f hf
    obtain ⟨item', hmem, heq⟩ := List.mem_filterMap.1 hf
    rcases List.mem_cons.1 hmem with rfl | hmem
    · cases item' with
      | ok x => cases heq
      | error e => exact hitem f (congrArg _ (Option.some.inj heq))
    · exact hitems f (List.mem_filterMap.2 ⟨item', hmem, heq⟩)
  have unexpected (x : Lexeme) (f : Fault)
      (h : (Except.error x.unexpected : Except Fault Lexeme) = .error f) :
      f.cause.category = .grammar := by
    obtain rfl := Except.error.inj h
    rfl
  have known (x : Lexeme) (f : Fault) (h : (Except.ok x : Except Fault Lexeme) = .error f) :
      f.cause.category = .grammar := by
    cases h
  have nothing : ∀ f ∈ Program.faultsOf [], f.cause.category = .grammar := by
    intro f hf
    cases hf
  induction xs generalizing stretch with
  | nil =>
    cases stretch with
    | none => exact nothing
    | some stretch => exact tail (unexpected stretch) nothing
  | cons x xs ih =>
    cases stretch with
    | none =>
      rw [report]
      split
      · refine tail (fun f h ↦ ?_) (ih _)
        obtain rfl := Except.error.inj h
        rfl
      · split
        · exact ih _
        · exact tail (known _) (ih _)
    | some stretch =>
      rw [report]
      split
      · exact ih _
      · exact tail (unexpected stretch) (tail (known _) (ih _))

/-- A text that is no program has faults of the grammar, at least one. -/
theorem Program.of_read_error {text : String} {offset : Nat} {faults : List Fault}
    (h : Program.read text offset = .error faults) :
    faults ≠ [] ∧ ∀ f ∈ faults, f.cause.category = .grammar := by
  have hnoted := Lexeme.category_report none (Lexeme.scan offset text.toList)
  unfold Program.read at h
  simp only at h
  split at h
  · split at h
    · cases h
    · rename_i hnonempty
      obtain rfl := Except.error.inj h
      exact ⟨fun hnil ↦ hnonempty (List.isEmpty_iff.2 hnil), hnoted⟩
  · rename_i others hothers
    obtain rfl := Except.error.inj h
    obtain ⟨hne, hgrammar⟩ := of_ofLexemes_error hothers
    refine ⟨fun hnil ↦ hne (List.append_eq_nil_iff.1 hnil).2, fun f hf ↦ ?_⟩
    rcases List.mem_append.1 hf with hf | hf
    · exact hnoted f hf
    · exact hgrammar f hf

/-! ### Scopes -/

namespace Finding

/-- The faults among these findings are found in the text. -/
def Static (found : List Finding) : Prop := ∀ f, .fault f ∈ found → f.isStatic = true

namespace Static

variable {found others : List Finding}

theorem nil : Static [] := nofun

/-- The faults of two parts are found in the text if those of each are. -/
theorem append (h : Static found) (h' : Static others) : Static (found ++ others) :=
  fun f hf ↦ (List.mem_append.1 hf).elim (h f) (h' f)

theorem check {b : Prop} [Decidable b] {span : Span} {cause : Cause}
    (h : cause.isStatic = true) : Static (if b then [misplaced span cause] else []) := by
  split
  · intro f hf
    cases List.mem_singleton.1 hf
    exact h
  · exact nil

/-- A reference is no fault. -/
theorem reference (s : Scopes) (span : Span) (name : String) :
    Static (reference s span name) := by
  intro f hf
  obtain ⟨hops, -, h⟩ := List.mem_map.1 hf
  cases h

/-- A variable that is read in its own initializer is found in the text. -/
theorem reading (s : Scopes) (span : Span) (name : String) : Static (reading s span name) :=
  .append (.check rfl) (.reference s span name)

/-- A name that is declared again is found in the text. -/
theorem declarationFault? (s : Scopes) (span : Span) (name : String) :
    Static ((s.declarationFault? name span).toList.map fault) := by
  intro f hf
  obtain ⟨f', hf', h⟩ := List.mem_map.1 hf
  cases h
  unfold Scopes.declarationFault? at hf'
  split at hf'
  · cases hf'
  · split at hf'
    · cases List.mem_singleton.1 hf'
      rfl
    · cases hf'

theorem parameters (s : Scopes) (ps : List Name) : Static (parameters s ps).2 := by
  induction ps generalizing s with
  | nil => exact nil
  | cons p ps ih => exact .append (declarationFault? s p.span p.text) (ih _)

theorem superFaults (cx : Surroundings) (span : Span) : Static (superFaults cx span) := by
  unfold Finding.superFaults
  split
  · intro f hf
    cases List.mem_singleton.1 hf
    rfl
  · split
    · exact nil
    · intro f hf
      cases List.mem_singleton.1 hf
      rfl

theorem returnFaults (cx : Surroundings) (span : Span) (hasValue : Bool) :
    Static (returnFaults cx span hasValue) :=
  .append (.check rfl) (.check rfl)

/-- A class that inherits from itself is found in the text. -/
theorem superclass (s : Scopes) (name : String) (parent : Option Name) :
    Static (parent.elim [] (superclass s name)) := by
  cases parent with
  | none => exact nil
  | some p => exact .append (.check rfl) (.reading s p.span p.text)

mutual

/-- All faults of an expression are found in the text. -/
theorem ofExpr (cx : Surroundings) (s : Scopes) : (e : Expr) → Static (ofExpr cx s e)
  | .literal .. => .nil
  | .var span name => .reading s span name
  | .assign span name value => (ofExpr cx s value).append (.reference s span name)
  | .step span _ _ name => .reference s span name
  | .group _ inner => ofExpr cx s inner
  | .unary _ _ operand => ofExpr cx s operand
  | .binary _ _ left right => (ofExpr cx s left).append (ofExpr cx s right)
  | .call _ callee arguments => (ofExpr cx s callee).append (ofExprs cx s arguments)
  | .property _ object _ => ofExpr cx s object
  | .setProperty _ object _ value => (ofExpr cx s value).append (ofExpr cx s object)
  | .this span => .append (.check rfl) (.reference s span "this")
  | .super span _ => (superFaults cx span).append (.reference s span "super")
  | .lambda f => ofFunction cx s .plain f

theorem ofExprs (cx : Surroundings) (s : Scopes) : (es : List Expr) → Static (ofExprs cx s es)
  | [] => .nil
  | e :: rest => (ofExpr cx s e).append (ofExprs cx s rest)

theorem ofExpr? (cx : Surroundings) (s : Scopes) : (e : Option Expr) → Static (ofExpr? cx s e)
  | none => .nil
  | some e => ofExpr cx s e

theorem ofFunction (cx : Surroundings) (s : Scopes) (kind : FunctionKind) :
    (f : FunDecl) → Static (ofFunction cx s kind f)
  | .mk _ _ params body => (parameters (s.push []) params).append (ofStmts _ _ body)

theorem ofMethods (cx : Surroundings) (s : Scopes) :
    (fs : List FunDecl) → Static (ofMethods cx s fs)
  | [] => .nil
  | f :: rest => (ofFunction cx s _ f).append (ofMethods cx s rest)

/-- All faults of a statement are found in the text. -/
theorem ofStmt (cx : Surroundings) (s : Scopes) : (stmt : Stmt) → Static (ofStmt cx s stmt).2
  | .expression _ value | .print _ value => ofExpr cx s value
  | .varDecl span name value => (declarationFault? s span name).append (ofExpr? cx _ value)
  | .funDecl f => (declarationFault? s f.span f.name).append (ofFunction cx _ .plain f)
  | .classDecl span name parent methods =>
    ((declarationFault? s span name).append (superclass _ name parent)).append
      (ofMethods _ _ methods)
  | .block _ body => ofStmts cx _ body
  | .conditional _ condition yes no =>
    ((ofExpr cx s condition).append (ofStmt cx s yes)).append (ofStmt? cx _ no)
  | .whileLoop _ condition body => (ofExpr cx s condition).append (ofStmt cx s body)
  | .forLoop _ init condition step body =>
    (((ofStmt? cx _ init).append (ofExpr? cx _ condition)).append (ofExpr? cx _ step)).append
      (ofStmt cx _ body)
  | .returns span value => (returnFaults cx span value.isSome).append (ofExpr? cx s value)

theorem ofStmts (cx : Surroundings) (s : Scopes) :
    (stmts : List Stmt) → Static (ofStmts cx s stmts).2
  | [] => .nil
  | stmt :: rest => (ofStmt cx s stmt).append (ofStmts cx _ rest)

theorem ofStmt? (cx : Surroundings) (s : Scopes) :
    (stmt : Option Stmt) → Static (ofStmt? cx s stmt).2
  | none => .nil
  | some stmt => ofStmt cx s stmt

end

end Static

end Finding

/-- A program that is refused for its scopes has faults that are found in the text, at least one. -/
theorem Program.of_distances_error {p : Program} {globals : List String} {faults : List Fault}
    (h : p.distances globals = .error faults) :
    faults ≠ [] ∧ ∀ f ∈ faults, f.isStatic = true := by
  have hstatic := Finding.Static.ofStmts {} (.ofGlobals globals) p
  unfold Program.distances at h
  simp only at h
  split at h
  · cases h
  · rename_i hnonempty
    obtain rfl := Except.error.inj h
    refine ⟨fun hnil ↦ hnonempty (List.isEmpty_iff.2 hnil), fun f hf ↦ hstatic f ?_⟩
    obtain ⟨found, hfound, heq⟩ := List.mem_filterMap.1 hf
    cases found with
    | distance => cases heq
    | fault f' =>
      obtain rfl := Option.some.inj heq
      exact hfound

/-! ### Sessions -/

namespace Session

/-- The source was refused: no step was made, and the session has changed in nothing but its
text. -/
structure Refused (s : Session) (w : World) (text : String) (faults : List Fault) (w' : World)
    (s' : Session) : Prop where
  static : ∀ f ∈ faults, f.isStatic = true
  rejected : Program.read text s.source.utf8ByteSize = .error faults ∨
    ∃ p, Program.read text s.source.utf8ByteSize = .ok p ∧
      p.distances s.globalNames = .error faults
  idle : s.run 0 w text = (.failed faults, w', s')
  world : w' = w
  kept : s' = { s with source := s.source ++ text ++ "\n" }

/-- The source was accepted, and a fault stopped its program. -/
structure Stopped (s : Session) (fuel : Nat) (w : World) (text : String) (faults : List Fault)
    (w' : World) (s' : Session) : Prop where
  late : ∃ f, faults = [f] ∧ f.isStatic = false
  accepted : ∃ p table, Program.read text s.source.utf8ByteSize = .ok p ∧
    p.distances s.globalNames = .ok table ∧
    ∀ f ∈ faults, (State.start s.heap p).run (table.reverse ++ s.distances) fuel w =
      (w', s'.heap, some (.stuck (.fault f)))

/-- A source is refused by its grammar or for its scopes. -/
theorem rejected_of_load {s s' : Session} {text : String} {faults : List Fault}
    (h : s.load text = (s', .error faults)) :
    Program.read text s.source.utf8ByteSize = .error faults ∨
      ∃ p, Program.read text s.source.utf8ByteSize = .ok p ∧
        p.distances s.globalNames = .error faults := by
  unfold load at h
  simp only at h
  split at h
  · rename_i found hread
    obtain rfl := Except.error.inj (Prod.mk.inj h).2
    exact .inl hread
  · rename_i p hread
    split at h
    · rename_i found hdistances
      obtain rfl := Except.error.inj (Prod.mk.inj h).2
      exact .inr ⟨p, hread, hdistances⟩
    · cases h

/-- A source that is not loaded is refused, with at least one fault. -/
theorem Refused.of_load {s s' : Session} {text : String} {faults : List Fault}
    (h : s.load text = (s', .error faults)) (w : World) :
    faults ≠ [] ∧ s.Refused w text faults w s' := by
  have hrejected := rejected_of_load h
  have hidle : s.run 0 w text = (.failed faults, w, s') := by
    unfold run
    rw [h]
  have hfaults : faults ≠ [] ∧ ∀ f ∈ faults, f.isStatic = true := by
    rcases hrejected with hread | ⟨p, -, hdistances⟩
    · obtain ⟨hne, hgrammar⟩ := Program.of_read_error hread
      exact ⟨hne, fun f hf ↦ Fault.isStatic_of_grammar (hgrammar f hf)⟩
    · exact Program.of_distances_error hdistances
  exact ⟨hfaults.1, hfaults.2, hrejected, hidle, rfl, of_load_error h⟩

/-- A source that is loaded and fails has been stopped. -/
theorem Stopped.of_load {s s₁ s' : Session} {text : String} {p : Program}
    (hload : s.load text = (s₁, .ok p)) {fuel : Nat} {w w' : World} {faults : List Fault}
    (h : s.run fuel w text = (.failed faults, w', s')) :
    s.Stopped fuel w text faults w' s' := by
  rw [run_of_load hload] at h
  obtain ⟨hread, hnone, rfl⟩ := load_eq_ok.1 hload
  rcases hrun : (State.start s.heap p).run
    ((Finding.distances (p.findings s.globalNames)).reverse ++ s.distances) fuel w
    with ⟨w₁, heap, ending⟩
  simp only [hrun] at h
  obtain ⟨hverdict, rfl, rfl⟩ : verdict ending = .failed faults ∧ w₁ = w' ∧ _ = s' := by
    simpa using h
  obtain ⟨f, rfl, rfl⟩ : ∃ f, ending = some (.stuck (.fault f)) ∧ faults = [f] := by
    rcases ending with - | (- | (f | a)) <;> cases hverdict
    exact ⟨f, rfl, rfl⟩
  have hlate : f.isStatic = false :=
    State.isStatic_of_run (fun ⟨_, ht⟩ ↦ nomatch ht) fuel w (congrArg (·.2.2) hrun)
  refine ⟨⟨f, rfl, hlate⟩, p, _, hread, if_pos hnone, fun f' hf' ↦ ?_⟩
  rw [List.mem_singleton.1 hf']
  exact hrun

/-- In every session, a source that fails has faults, and it fails in exactly one of two ways: it is
refused for faults that are all static, or its program is stopped by one that is not. The exit
status of a command says in which. -/
theorem tracks {s s' : Session} {fuel : Nat} {w w' : World} {text : String} {faults : List Fault}
    (h : s.run fuel w text = (.failed faults, w', s')) :
    faults ≠ [] ∧
    Xor (s.Refused w text faults w' s') (s.Stopped fuel w text faults w' s') ∧
    (Console.statusOf faults = 65 ↔ s.Refused w text faults w' s') ∧
    (Console.statusOf faults = 70 ↔ s.Stopped fuel w text faults w' s') := by
  have hnotBoth (hrefused : s.Refused w text faults w' s')
      (hstopped : s.Stopped fuel w text faults w' s') : False := by
    obtain ⟨f, rfl, hlate⟩ := hstopped.late
    have hstatic := hrefused.static f List.mem_cons_self
    rw [hlate] at hstatic
    cases hstatic
  rcases hload : s.load text with ⟨s₁, found | p⟩
  · have hrun := h
    unfold run at hrun
    rw [hload] at hrun
    obtain ⟨rfl, rfl, rfl⟩ : found = faults ∧ w = w' ∧ s₁ = s' := by simpa using hrun
    obtain ⟨hne, hrefused⟩ := Refused.of_load hload w
    have hstatus : Console.statusOf found = 65 := by
      obtain ⟨f, rest, rfl⟩ := List.exists_cons_of_ne_nil hne
      unfold Console.statusOf
      rw [if_pos]
      · rfl
      · rw [List.any_cons, hrefused.static f List.mem_cons_self, Bool.true_or]
    refine ⟨hne, .inl ⟨hrefused, hnotBoth hrefused⟩, ⟨fun _ ↦ hrefused, fun _ ↦ hstatus⟩,
      fun h70 ↦ ?_, fun hstopped ↦ (hnotBoth hrefused hstopped).elim⟩
    rw [hstatus] at h70
    cases h70
  · have hstopped := Stopped.of_load hload h
    obtain ⟨f, rfl, hlate⟩ := hstopped.late
    have hstatus : Console.statusOf [f] = 70 := by
      unfold Console.statusOf
      rw [if_neg]
      · rfl
      · rw [List.any_cons, hlate]
        exact Bool.false_ne_true
    refine ⟨List.cons_ne_nil _ _, .inr ⟨hstopped, fun hrefused ↦ hnotBoth hrefused hstopped⟩,
      ⟨fun h65 ↦ ?_, fun hrefused ↦ (hnotBoth hrefused hstopped).elim⟩,
      fun _ ↦ hstopped, fun _ ↦ hstatus⟩
    rw [hstatus] at h65
    cases h65

/-- A program is stopped where it reads a variable that is not bound. -/
theorem tracks_undefined :
    ∃ w s', Session.new.run 4 w "x;" = (.failed [⟨.notDefined "x", ⟨0, 1⟩⟩], w, s') ∧
      Session.new.Stopped 4 w "x;" [⟨.notDefined "x", ⟨0, 1⟩⟩] w s' := by
  have hload : Session.new.load "x;" =
      (⟨"x;\n", [], Session.new.heap⟩, .ok [.expression ⟨0, 2⟩ (.var ⟨0, 1⟩ "x")]) :=
    load_of_read globalNames_new (by decide +kernel) rfl rfl rfl
  have hrun (w : World) : Session.new.run 4 w "x;" =
      (.failed [⟨.notDefined "x", ⟨0, 1⟩⟩], w, ⟨"x;\n", [],
        ⟨#[[("clock", .native .clock), ("input", .native .input)]], #[], 0, 0⟩⟩) :=
    run_of_load hload 4 w
  have hstatus : Console.statusOf [⟨.notDefined "x", ⟨0, 1⟩⟩] = 70 := rfl
  exact ⟨.ofInput [] none fun _ ↦ 0, _, hrun _, (tracks (hrun _)).2.2.2.1 hstatus⟩

end Session

end LoxLang
