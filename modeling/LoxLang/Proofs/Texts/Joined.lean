import LoxLang.Program.Equality
import LoxLang.Proofs.Grammar.Fuel
import LoxLang.Proofs.Texts

/-!
# A program before a text

If a text is a program, then what is read of another text behind it is read as if nothing stood
there: the program of both is the program of the first followed by that of the second, and if the
second text is none then the faults of both are the faults of the second
(`Program.read_behind_program`). Only an `else` at the front of the second text could belong to the
first.

Three things carry the proof. The declarations of the first text are passed one by one, whatever
stands behind them (`Grammar.Derives.passed`). With the fuel that is left, the same is read as with
the fuel that is measured by the second text alone. And the token just behind a place has no
influence on what is read there: a reader that passes a token forgets it, and one that finds a fault
first skips a token before it looks for the next statement (`Reader.recovering_behind`).
-/

namespace LoxLang

/-! ### The token just behind -/

/-- The same place with another token just behind. -/
def Cursor.behind (last : Option Lexeme) (c : Cursor) : Cursor := { c with last }

@[simp] theorem Cursor.rest_behind (last : Option Lexeme) (c : Cursor) :
    (c.behind last).rest = c.rest := rfl

/-- Once a token is passed, it is the one just behind. -/
theorem Cursor.advance_behind (last : Option Lexeme) {c : Cursor} (h : c.rest ≠ []) :
    (c.behind last).advance = c.advance := by
  obtain ⟨x, ts, hrest⟩ := List.exists_cons_of_ne_nil h
  simp [advance, behind, hrest]

namespace Reader

variable {α β : Type} {p : Reader α}

/-- Where tokens are ahead, the reader comes to the same whatever token is just behind, or it gives
the same fault and has not moved. -/
def Forgets (p : Reader α) : Prop :=
  ∀ (c : Cursor) (last : Option Lexeme), c.rest ≠ [] → p (c.behind last) = p c ∨
    ∃ f, p c = .fault f c ∧ p (c.behind last) = .fault f (c.behind last)

namespace Forgets

protected theorem exhausted : Forgets (exhausted : Reader α) := fun _ _ _ ↦ .inl rfl

protected theorem unexpected (expected : List String) :
    Forgets (unexpected expected : Reader α) :=
  fun _ _ _ ↦ .inr ⟨_, rfl, rfl⟩

/-- What is read first forgets the token behind. -/
protected theorem bind (hp : Forgets p) (f : α → Reader β) : Forgets (p >>= f) := by
  intro c last hc
  show Reader.bind p f _ = Reader.bind p f c ∨ ∃ e, Reader.bind p f c = _ ∧ Reader.bind p f _ = _
  unfold Reader.bind
  rcases hp c last hc with h | ⟨e, h, h'⟩
  · exact .inl (by rw [h])
  · exact .inr ⟨e, by rw [h], by rw [h']⟩

/-- To take a token forgets the one behind it. -/
protected theorem take : Forgets take := by
  intro c last hc
  unfold Reader.take
  rw [Cursor.advance_behind last hc]
  exact .inl rfl

protected theorem skip : Forgets skip := .bind .take _

/-- To look ahead has nothing to do with the token behind. -/
protected theorem peek {f : Option Token → Reader β} (hf : ∀ t, Forgets (f t)) :
    Forgets (peek >>= f) :=
  fun c last hc ↦ hf _ c last hc

protected theorem peekSecond {f : Option Token → Reader β} (hf : ∀ t, Forgets (f t)) :
    Forgets (peekSecond >>= f) :=
  fun c last hc ↦ hf _ c last hc

protected theorem expectName (what : String) : Forgets (expectName what) := by
  refine .peek fun t ↦ ?_
  split
  · exact .bind .take _
  · exact .unexpected _

end Forgets

/-- What holds of the readers of statements and expressions with this much fuel. -/
structure ForgetsAt (fuel : Nat) : Prop where
  expression : Forgets (expression fuel)
  binary : ∀ levels, Forgets (binary fuel levels)
  unary : Forgets (unary fuel)
  primary : Forgets (primary fuel)
  declaration : Forgets (declaration fuel)
  expressionStmt : Forgets (expressionStmt fuel)
  statement : Forgets (statement fuel)

namespace ForgetsAt

variable {fuel : Nat}

/-- An expression begins with a token of its own. -/
theorem expression_succ (ih : ForgetsAt fuel) : Forgets (Reader.expression (fuel + 1)) := by
  rw [Reader.expression]
  exact .bind (ih.binary _) _

theorem binary_succ (ih : ForgetsAt fuel) (levels : List (List (Mark × BinaryOp))) :
    Forgets (Reader.binary (fuel + 1) levels) := by
  cases levels with
  | nil =>
    rw [Reader.binary]
    exact ih.unary
  | cons level tighter =>
    rw [Reader.binary]
    exact .bind (ih.binary tighter) _

theorem unary_succ (ih : ForgetsAt fuel) : Forgets (Reader.unary (fuel + 1)) := by
  rw [Reader.unary]
  refine .peek fun t ↦ ?_
  split
  · exact .bind .skip _
  · exact .bind .skip _
  · split
    · exact .bind .skip _
    · exact .bind ih.primary _

theorem primary_succ : Forgets (Reader.primary (fuel + 1)) := by
  rw [Reader.primary]
  refine .peek fun t ↦ ?_
  split
  · exact .bind .skip _
  split
  · exact .bind (.expectName _) _
  any_goals exact .bind .skip _
  exact .unexpected _

/-- A class begins with its keyword, which is passed. -/
theorem classDecl (fuel : Nat) : Forgets (Reader.classDecl fuel) := by
  cases fuel with
  | zero => exact .exhausted
  | succ fuel =>
    rw [Reader.classDecl]
    exact .bind .skip _

/-- The declaration of a variable begins with its keyword, which is passed. -/
theorem varDecl (fuel : Nat) : Forgets (Reader.varDecl fuel) := by
  cases fuel with
  | zero => exact .exhausted
  | succ fuel =>
    rw [Reader.varDecl]
    exact .bind .skip _

/-- A loop with clauses begins with its keyword, which is passed. -/
theorem forLoop (fuel : Nat) : Forgets (Reader.forLoop fuel) := by
  cases fuel with
  | zero => exact .exhausted
  | succ fuel =>
    rw [Reader.forLoop]
    exact .bind .skip _

theorem declaration_succ (ih : ForgetsAt fuel) : Forgets (Reader.declaration (fuel + 1)) := by
  rw [Reader.declaration]
  refine .peek fun t ↦ ?_
  split
  · exact classDecl fuel
  · refine .peekSecond fun t ↦ ?_
    split
    · exact .bind .skip _
    · exact ih.statement
  · exact varDecl fuel
  · exact ih.statement

theorem expressionStmt_succ (ih : ForgetsAt fuel) :
    Forgets (Reader.expressionStmt (fuel + 1)) := by
  rw [Reader.expressionStmt]
  exact .bind ih.expression _

/-- Each kind of statement forgets the token behind. -/
theorem statement_succ (ih : ForgetsAt fuel) : Forgets (Reader.statement (fuel + 1)) := by
  rw [Reader.statement]
  refine .peek fun t ↦ ?_
  split
  · exact forLoop fuel
  any_goals exact .bind .skip _
  exact ih.expressionStmt

end ForgetsAt

/-- The readers look behind only after they have passed a token. -/
theorem forgetsAt (fuel : Nat) : ForgetsAt fuel := by
  induction fuel with
  | zero => constructor <;> intros <;> exact .exhausted
  | succ fuel ih =>
    exact {
      expression := ih.expression_succ
      binary := ih.binary_succ
      unary := ih.unary_succ
      primary := ForgetsAt.primary_succ
      declaration := ih.declaration_succ
      expressionStmt := ih.expressionStmt_succ
      statement := ih.statement_succ }

/-- A fault is followed by a skipped token, so that it too leaves nothing of what was behind. -/
theorem recovering_behind (hp : Forgets p) {c : Cursor} (last : Option Lexeme)
    (hc : c.rest ≠ []) : recovering p (c.behind last) = recovering p c := by
  unfold recovering
  rcases hp c last hc with h | ⟨f, h, h'⟩
  · rw [h]
  · have hnote : (c.behind last).note f = (c.note f).behind last := rfl
    have hrecover : ((c.note f).behind last).recover = (c.note f).recover := by
      unfold Cursor.recover
      rw [Cursor.advance_behind (c := c.note f) last hc]
    simp only [h, h', hnote, hrecover]

/-- The token behind the first place has no influence on the program or its faults. -/
theorem program_behind (depth fuel : Nat) (c : Cursor) (last : Option Lexeme) :
    Program.ofOutcome (program depth fuel (c.behind last)) =
      Program.ofOutcome (program depth fuel c) := by
  cases fuel with
  | zero => rfl
  | succ fuel =>
    rw [program, bind_atEnd, bind_atEnd, Cursor.rest_behind]
    by_cases hc : c.rest = []
    · rw [hc]
      rfl
    · have hfirst := recovering_behind (forgetsAt depth).declaration last hc
      have hmore : c.rest.isEmpty = false := by simpa using hc
      simp only [hmore, Bool.false_eq_true, if_false]
      show Program.ofOutcome (Reader.bind _ _ _) = Program.ofOutcome (Reader.bind _ _ _)
      unfold Reader.bind
      rw [hfirst]

end Reader

/-! ### The declarations before a place -/

/-- The outcome with another value. -/
def Outcome.map {α β : Type} (g : α → β) : Outcome α → Outcome β
  | .ok a c => .ok (g a) c
  | .fault e c => .fault e c
  | .exhausted => .exhausted
  | .astray m => .astray m

theorem Program.ofOutcome_map (g : Program → Program) (o : Outcome Program) :
    ofOutcome (o.map g) = (ofOutcome o).map g := by
  cases o with
  | ok p c =>
    simp only [Outcome.map, ofOutcome]
    split <;> rfl
  | fault e c => rfl
  | exhausted => rfl
  | astray m => rfl

namespace Grammar

open Reader Grammar.Symbol

/-- The program reader passes the tokens that are derived from declarations, and goes on behind
them. -/
def Passed : (s : Symbol) → List Lexeme → s.Tree → List Lexeme → Prop
  | decls, ts, t, us => Lacks (·.isMark .elseWord) us →
    ∀ depth fuel last stop faults, 32 * ts.length + 13 ≤ depth → ∃ last',
      program depth (t.length + fuel) ⟨ts, last, stop, faults⟩ =
        (program depth fuel ⟨us, last', stop, faults⟩).map (t ++ ·)
  | _, _, _, _ => True

/-- What is derived is passed by the program reader. -/
theorem Derives.passed {s : Symbol} {ts us : List Lexeme} {t : s.Tree}
    (h : Derives .nearest s ts t us) : Passed s ts t us := by
  induction h with
  | declsNil =>
    intro _ depth fuel last stop faults _
    refine ⟨last, ?_⟩
    rw [List.length_nil, Nat.zero_add]
    cases program depth fuel ⟨_, last, stop, faults⟩ <;> rfl
  | @declsCons d ds ts us vs hd hds _ ih =>
    intro hvs depth fuel last stop faults hdepth
    have hlength := hd.length_lt rfl
    -- the first declaration is followed by the next one, or by what follows them all
    have hus : Lacks (·.isMark .elseWord) us := by
      rcases hds.head_decls with rfl | hstart
      · exact hvs
      · exact hstart.lacks fun t ht ↦ not_isMark_of_beginsDecl ht (.inl rfl)
    have hmore : ts.isEmpty = false := by
      obtain ⟨x, xs, rfl, -⟩ := hd.begins rfl
      rfl
    obtain ⟨last₁, hfirst⟩ := (Reads.recovering (hd.complete hus depth hdepth)) last stop faults
    obtain ⟨last₂, hothers⟩ := ih hvs depth fuel last₁ stop faults (by omega)
    refine ⟨last₂, ?_⟩
    rw [List.length_cons, Nat.add_right_comm, program, bind_atEnd, hmore]
    show Reader.bind _ _ _ = _
    unfold Reader.bind
    rw [hfirst]
    show Reader.bind _ _ _ = _
    unfold Reader.bind
    rw [hothers]
    cases program depth fuel ⟨vs, last₂, stop, faults⟩ <;> rfl
  | _ => trivial

/-- Behind the tokens of a program, a list of tokens that does not begin with `else` is read as it
is read alone. -/
theorem IsProgram.ofLexemes_append {ts us : List Lexeme} {p : Program}
    (hp : IsProgram .nearest ts p) (hus : Lacks (·.isMark .elseWord) us) (stop : Nat) :
    Program.ofLexemes (ts ++ us) stop = (Program.ofLexemes us stop).map (p ++ ·) := by
  have hpassed := (Derives.frame hp us).passed
  rw [List.nil_append] at hpassed
  -- the fuel for both lists, and one unit more for each declaration that is passed
  let fuel := Program.fuelFor (ts ++ us).length
  have hmore : Program.fuelFor us.length ≤ fuel := by
    simp only [fuel, Program.fuelFor, List.length_append]
    omega
  obtain ⟨last, hread⟩ := hpassed hus fuel fuel none stop []
    (by simp only [fuel, Program.fuelFor]; omega)
  calc Program.ofLexemes (ts ++ us) stop
      = Program.ofOutcome (program fuel (p.length + fuel) ⟨ts ++ us, none, stop, []⟩) :=
        Program.ofLexemes_eq_program _ stop (Nat.le_refl _) (Nat.le_add_left ..)
    _ = (Program.ofOutcome (program fuel fuel ⟨us, last, stop, []⟩)).map (p ++ ·) := by
        rw [hread, Program.ofOutcome_map]
    _ = (Program.ofOutcome (program fuel fuel ⟨us, none, stop, []⟩)).map (p ++ ·) := by
        rw [← program_behind fuel fuel ⟨us, none, stop, []⟩ last]
        rfl
    _ = (Program.ofLexemes us stop).map (p ++ ·) := by
        rw [Program.ofLexemes_eq_program us stop hmore hmore]

end Grammar

/-! ### Texts -/

open Grammar Lexeme

namespace Program

/-- A text behind a program and a line break is read as it is read alone, with the same faults, and
the declarations of the program come first. -/
theorem read_behind_program {a b : String} {offset : Nat} {p : Program}
    (hp : read a offset = .ok p)
    (helse : ∀ x ∈ (lexemesOf (Lexeme.read b (offset + a.utf8ByteSize + 1))).head?,
      x.token ≠ .mark .elseWord) :
    read (a ++ "\n" ++ b) offset = (read b (offset + a.utf8ByteSize + 1)).map (p ++ ·) := by
  obtain ⟨hknown, hp⟩ := read_eq_ok.1 hp
  have htokens : Lexeme.read (a ++ "\n" ++ b) offset =
      (scan offset a.toList).map .ok ++ Lexeme.read b (offset + a.utf8ByteSize + 1) := by
    have htext : (a ++ "\n" ++ b).toList = a.toList ++ '\n' :: b.toList := by simp
    rw [Lexeme.read, htext, scan_append hknown, Text.byteLength_toList, report_append hknown]
    rfl
  have hlacks : Lacks (·.isMark .elseWord)
      (lexemesOf (Lexeme.read b (offset + a.utf8ByteSize + 1))) := by
    unfold Lacks
    cases hx : (lexemesOf (Lexeme.read b (offset + a.utf8ByteSize + 1))).head? with
    | none => rfl
    | some x => exact Bool.eq_false_iff.2 fun h ↦ helse x hx (Reader.isMark_iff.1 h)
  have hstop : offset + (a ++ "\n" ++ b).utf8ByteSize =
      offset + a.utf8ByteSize + 1 + b.utf8ByteSize := by
    rw [String.utf8ByteSize_append, String.utf8ByteSize_append]
    show offset + (a.utf8ByteSize + 1 + b.utf8ByteSize) = _
    omega
  simp only [read, htokens, hstop, faultsOf_append, lexemesOf_append, faultsOf_map_ok,
    lexemesOf_map_ok, List.nil_append, hp.ofLexemes_append hlacks]
  cases ofLexemes (lexemesOf (Lexeme.read b (offset + a.utf8ByteSize + 1)))
      (offset + a.utf8ByteSize + 1 + b.utf8ByteSize) with
  | ok q =>
    simp only [Except.map]
    split <;> rfl
  | error faults => rfl

/-- An `if` is still open where the second text begins, and the second text is no program. -/
theorem read_behind_program_if : ∃ p faults,
    read "if (x) y;" 0 = .ok p ∧ read "print; z = ;" 10 = .error faults ∧
      read ("if (x) y;" ++ "\n" ++ "print; z = ;") 0 = .error faults := by
  have hp : read "if (x) y;" 0 = .ok [.conditional ⟨0, 9⟩ (.var ⟨4, 5⟩ "x")
      (.expression ⟨7, 9⟩ (.var ⟨7, 8⟩ "y")) none] := by
    decide +kernel
  have hq : read "print; z = ;" 10 = .error [
      ⟨.unexpectedToken ";" ["expression"], ⟨15, 16⟩⟩,
      ⟨.unexpectedToken ";" ["expression"], ⟨21, 22⟩⟩] := by
    decide +kernel
  have hfirst : (lexemesOf (Lexeme.read "print; z = ;" 10)).head? =
      some ⟨.mark .printWord, "print".toList, ⟨10, 15⟩⟩ := by
    decide +kernel
  have hjoined := read_behind_program hp (b := "print; z = ;") fun x hx ↦ by
    obtain rfl := Option.some.inj (hfirst.symm.trans hx)
    intro helse
    cases helse
  exact ⟨_, _, hp, hq, hjoined.trans (congrArg (Except.map _) hq)⟩

end Program

end LoxLang
