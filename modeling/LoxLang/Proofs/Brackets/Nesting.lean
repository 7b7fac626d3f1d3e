import LoxLang.Program.Equality
import LoxLang.Proofs.Brackets
import LoxLang.Proofs.Relocation.Texts

/-!
# Brackets of programs

In a program the brackets are nested: each one that closes is of the kind that was opened last, and
none is left open. What a symbol of the grammar derives leaves the brackets that are open around it
as they are, because each rule that opens one also closes it, and what it derives between the two
does so by induction (`Grammar.Derives.neutral`).

So a text that is taken to need more lines is no program yet, at whatever offset it is read
(`Program.brackets_nested_of_read`).
-/

namespace LoxLang

namespace Bracket

/-- The brackets that are open behind a mark, the latest first. One that closes must be of the kind
that was opened last. -/
def after (outer : List Bracket) (m : Mark) : Option (List Bracket) :=
  match m with
  | .leftParen => some (.parenthesis :: outer)
  | .leftBrace => some (.brace :: outer)
  | .rightParen | .rightBrace => if outer.head?.map closer = some m then some outer.tail else none
  | _ => some outer

/-- Whether a mark opens or closes something. -/
def isBracket : Mark → Bool
  | .leftParen | .leftBrace | .rightParen | .rightBrace => true
  | _ => false

theorem after_opener (k : Bracket) (outer : List Bracket) :
    after outer k.opener = some (k :: outer) := by
  cases k <;> rfl

theorem after_closer (k : Bracket) (outer : List Bracket) :
    after (k :: outer) k.closer = some outer := by
  cases k <;> rfl

theorem after_of_not_isBracket {m : Mark} (h : isBracket m = false) (outer : List Bracket) :
    after outer m = some outer := by
  cases m <;> first | rfl | cases h

theorem mark_cases (m : Mark) :
    isBracket m = false ∨ (∃ k, m = opener k) ∨ ∃ k, m = closer k := by
  cases m
  case leftParen => exact .inr (.inl ⟨.parenthesis, rfl⟩)
  case leftBrace => exact .inr (.inl ⟨.brace, rfl⟩)
  case rightParen => exact .inr (.inr ⟨.parenthesis, rfl⟩)
  case rightBrace => exact .inr (.inr ⟨.brace, rfl⟩)
  all_goals exact .inl rfl

/-- A bracket that closes can stand only behind one that is open and of its kind. -/
theorem of_after_closer {k : Bracket} {outer inner : List Bracket}
    (h : after outer k.closer = some inner) : outer = k :: inner := by
  cases outer with
  | nil => cases k <;> cases h
  | cons k' outer => cases k <;> cases k' <;> cases h <;> rfl

end Bracket

namespace Program

/-- The marks are properly nested: each bracket that closes is of the kind that was opened last, and
at the end none is left open. -/
def Nested (ms : List Mark) : Prop := ms.foldlM Bracket.after [] = some []

/-- What is open at first or opened later is closed, or it is left open. -/
theorem openings_add_length {ms : List Mark} {outer left : List Bracket}
    (h : ms.foldlM Bracket.after outer = some left) :
    openings ms + outer.length = closings ms + left.length := by
  induction ms generalizing outer with
  | nil =>
    obtain rfl := Option.some.inj h
    rfl
  | cons m ms ih =>
    rw [List.foldlM_cons] at h
    obtain ⟨inner, hm, hms⟩ := Option.bind_eq_some_iff.1 h
    have hrest := ih hms
    rw [openings_cons, closings_cons]
    rcases Bracket.mark_cases m with hplain | ⟨k, rfl⟩ | ⟨k, rfl⟩
    · rw [Bracket.after_of_not_isBracket hplain, Option.some.injEq] at hm
      have hnone : openings [m] = 0 ∧ closings [m] = 0 := by
        cases m <;> first | exact ⟨rfl, rfl⟩ | cases hplain
      rw [← hm] at hrest
      omega
    · rw [Bracket.after_opener, Option.some.injEq] at hm
      have hopens : openings [k.opener] = 1 ∧ closings [k.opener] = 0 := by
        cases k <;> exact ⟨rfl, rfl⟩
      rw [← hm, List.length_cons] at hrest
      omega
    · have hcloses : openings [k.closer] = 0 ∧ closings [k.closer] = 1 := by
        cases k <;> exact ⟨rfl, rfl⟩
      rw [Bracket.of_after_closer hm, List.length_cons]
      omega

theorem Nested.openings_eq {ms : List Mark} (h : Nested ms) : openings ms = closings ms := by
  have hcount := openings_add_length h
  exact hcount

end Program

namespace Grammar

open Grammar.Symbol Program

variable {rule : ElseRule}

/-- What is open behind these tokens, if this is open before them. -/
def openBehind (outer : List Bracket) (ts : List Lexeme) : Option (List Bracket) :=
  (marksOf (ts.map (·.token))).foldlM Bracket.after outer

theorem openBehind_mark {x : Lexeme} {m : Mark} (hx : x.token = .mark m) (outer : List Bracket)
    (ts : List Lexeme) :
    openBehind outer (x :: ts) = (Bracket.after outer m).bind (openBehind · ts) := by
  have hmarks : marksOf ((x :: ts).map (·.token)) = m :: marksOf (ts.map (·.token)) := by
    simp [marksOf, hx]
  rw [openBehind, hmarks, List.foldlM_cons]
  rfl

/-- The second list leaves open what the first one does: between the two, brackets are nested. -/
def Neutral (ts us : List Lexeme) : Prop := ∀ outer, openBehind outer ts = openBehind outer us

namespace Neutral

variable {ts us vs : List Lexeme} {x l r : Lexeme} {m : Mark}

protected theorem refl (ts : List Lexeme) : Neutral ts ts := fun _ ↦ rfl

protected theorem trans (h : Neutral ts us) (h' : Neutral us vs) : Neutral ts vs :=
  fun outer ↦ (h outer).trans (h' outer)

/-- A mark that is no bracket changes nothing. -/
protected theorem mark (hx : x.token = .mark m) (hm : Bracket.isBracket m = false)
    (h : Neutral ts us) : Neutral (x :: ts) us := by
  intro outer
  rw [openBehind_mark hx, Bracket.after_of_not_isBracket hm]
  exact h outer

/-- A token that is no mark changes nothing. -/
theorem other (hx : ∀ m, x.token ≠ .mark m) (h : Neutral ts us) : Neutral (x :: ts) us := by
  intro outer
  rw [← h outer]
  unfold openBehind
  cases ht : x.token with
  | mark m => exact absurd ht (hx m)
  | _ => simp [marksOf, ht]

protected theorem name {n : String} (hx : x.token = .identifier n) (h : Neutral ts us) :
    Neutral (x :: ts) us :=
  .other (by rw [hx]; nofun) h

/-- What a bracket opens, the next one that is not closed before closes. -/
protected theorem bracket (k : Bracket) (hl : l.token = .mark k.opener)
    (h : Neutral ts (r :: us)) (hr : r.token = .mark k.closer) : Neutral (l :: ts) us := by
  intro outer
  rw [openBehind_mark hl, Bracket.after_opener, Option.bind_some, h, openBehind_mark hr,
    Bracket.after_closer, Option.bind_some]

protected theorem literal {v : Literal} (hx : Grammar.Denotes x.token v) (h : Neutral ts us) :
    Neutral (x :: ts) us := by
  generalize ht : x.token = t at hx
  cases hx with
  | false | true | nil => exact .mark ht rfl h
  | number | string => exact .other (by rw [ht]; nofun) h

protected theorem step {op : StepOp} (hx : x.token = .mark op.mark) (h : Neutral ts us) :
    Neutral (x :: ts) us := by
  refine .mark hx ?_ h
  cases op <;> rfl

end Neutral

/-- No bracket is an operator of the symbol. -/
def Symbol.Unbracketed : Symbol → Prop
  | .binary levels => ∀ level ∈ levels, ∀ o ∈ level, Bracket.isBracket o.1 = false
  | _ => True

theorem unbracketed_precedence : (Symbol.binary precedence).Unbracketed := by
  simp only [Symbol.Unbracketed, precedence]
  decide

/-- What a symbol derives is nested. -/
theorem Derives.neutral {s : Symbol} {ts us : List Lexeme} {t : s.Tree}
    (h : Derives rule s ts t us) : s.Unbracketed → Neutral ts us := by
  induction h with
  -- expressions
  | assign hx heq _ ih => exact fun _ ↦ .name hx (.mark heq rfl (ih trivial))
  | setProperty _ hdot hx heq _ ihe ihv =>
    exact fun _ ↦ (ihe trivial).trans (.mark hdot rfl (.name hx (.mark heq rfl (ihv trivial))))
  | operators _ ih => exact fun _ ↦ ih unbracketed_precedence
  | join _ hop ho _ ihl ihr =>
    exact fun hs ↦ (ihl hs).trans
      (.mark ho (hs _ (.head _) _ hop) (ihr fun level hlevel ↦ hs level (.tail _ hlevel)))
  | tighter _ ih => exact fun hs ↦ ih fun level hlevel ↦ hs level (.tail _ hlevel)
  | operand _ ih | suffixed _ ih | atom _ ih | arg _ ih | optSome _ ih | declVar _ ih
  | declStmt _ ih | initVar _ ih => exact fun _ ↦ ih trivial
  | not ho _ ih | negate ho _ ih => exact fun _ ↦ .mark ho rfl (ih trivial)
  | stepBefore ho hx => exact fun _ ↦ .step ho (.name hx (.refl _))
  | callNone _ hl hr ih =>
    exact fun _ ↦ (ih trivial).trans (.bracket .parenthesis hl (.refl _) hr)
  | callSome _ hl _ _ hr ihe ihas =>
    exact fun _ ↦ (ihe trivial).trans (.bracket .parenthesis hl (ihas trivial) hr)
  | property _ hdot hx ih =>
    exact fun _ ↦ (ih trivial).trans (.mark hdot rfl (.name hx (.refl _)))
  | argThen _ hcomma _ ihe ihes =>
    exact fun _ ↦ (ihe trivial).trans (.mark hcomma rfl (ihes trivial))
  | literal hx => exact fun _ ↦ .literal hx (.refl _)
  | name hx => exact fun _ ↦ .name hx (.refl _)
  | stepAfter hx ho => exact fun _ ↦ .name hx (.step ho (.refl _))
  | this hw => exact fun _ ↦ .mark hw rfl (.refl _)
  | super hw hdot hx => exact fun _ ↦ .mark hw rfl (.mark hdot rfl (.name hx (.refl _)))
  | group hl _ hr ih => exact fun _ ↦ .bracket .parenthesis hl (ih trivial) hr
  | lambda hw _ ih => exact fun _ ↦ .mark hw rfl (ih trivial)
  | optNone | declsNil | methodsNil => exact fun _ ↦ .refl _
  -- functions
  | functionNone hl hr hb _ hz ih =>
    exact fun _ ↦ .trans (.bracket .parenthesis hl (.refl _) hr)
      (.bracket .brace hb (ih trivial) hz)
  | functionSome hl _ _ hr hb _ hz ihps ih =>
    exact fun _ ↦ .trans (.bracket .parenthesis hl (ihps trivial) hr)
      (.bracket .brace hb (ih trivial) hz)
  | param hx => exact fun _ ↦ .name hx (.refl _)
  | paramThen hx hcomma _ ih => exact fun _ ↦ .name hx (.mark hcomma rfl (ih trivial))
  -- declarations
  | declsCons _ _ ih ihs => exact fun _ ↦ (ih trivial).trans (ihs trivial)
  | classPlain hw hx hb _ hz ih =>
    exact fun _ ↦ .mark hw rfl (.name hx (.bracket .brace hb (ih trivial) hz))
  | classInheriting hw hx hless hy hb _ hz ih =>
    exact fun _ ↦ .mark hw rfl (.name hx (.mark hless rfl (.name hy
      (.bracket .brace hb (ih trivial) hz))))
  | methodsCons hx _ _ ih ihs => exact fun _ ↦ .name hx ((ih trivial).trans (ihs trivial))
  | funDecl hw hx _ ih => exact fun _ ↦ .mark hw rfl (.name hx (ih trivial))
  | varNone hw hx hs => exact fun _ ↦ .mark hw rfl (.name hx (.mark hs rfl (.refl _)))
  | varSome hw hx heq _ hs ih =>
    exact fun _ ↦ .mark hw rfl (.name hx (.mark heq rfl
      ((ih trivial).trans (.mark hs rfl (.refl _)))))
  -- statements
  | exprStmt _ hs ih | initExpr _ hs ih =>
    exact fun _ ↦ (ih trivial).trans (.mark hs rfl (.refl _))
  | print hw _ hs ih | returns hw _ hs ih =>
    exact fun _ ↦ .mark hw rfl ((ih trivial).trans (.mark hs rfl (.refl _)))
  | block hb _ hz ih => exact fun _ ↦ .bracket .brace hb (ih trivial) hz
  | ifOnly hw hl _ hr _ ihc ih | whileLoop hw hl _ hr _ ihc ih =>
    exact fun _ ↦ .mark hw rfl (.trans (.bracket .parenthesis hl (ihc trivial) hr) (ih trivial))
  | ifElse hw hl _ hr _ he _ _ ihc ihyes ihno =>
    exact fun _ ↦ .mark hw rfl (.trans (.bracket .parenthesis hl (ihc trivial) hr)
      ((ihyes trivial).trans (.mark he rfl (ihno trivial))))
  | forLoop hw hl _ _ hs _ hr _ ihi ihc ihu ih =>
    have inside := (ihi trivial).trans ((ihc trivial).trans (.mark hs rfl (ihu trivial)))
    exact fun _ ↦ .mark hw rfl (.trans (.bracket .parenthesis hl inside hr) (ih trivial))
  | initNone hs => exact fun _ ↦ .mark hs rfl (.refl _)

end Grammar

namespace Program

open Lexeme

/-- If a text is read as a program, then it has the same tokens wherever it is read, and it has no
faults among them. -/
theorem read_eq_map_ok {source : String} {offset : Nat} {p : Program}
    (h : read source offset = .ok p) :
    Lexeme.read source 0 = (scan 0 source.toList).map .ok ∧
      (scan offset source.toList).map (·.token) = (scan 0 source.toList).map (·.token) := by
  have hscan : scan offset source.toList =
      (scan 0 source.toList).map (Lexeme.relocate (Span.map (· + offset))) :=
    scan_relocate fun n _ ↦ by omega
  refine ⟨report_of_known fun x hx ↦ ?_, ?_⟩
  · refine (read_eq_ok.1 h).1 (x.relocate (Span.map (· + offset))) ?_
    rw [hscan]
    exact List.mem_map_of_mem hx
  · rw [hscan, List.map_map]
    rfl

/-- The brackets of a program are properly nested, and it is taken to need no more lines. So a text
that is taken to need more is not read as a program, at whatever offset. -/
theorem brackets_nested_of_read (source : String) (offset : Nat) :
    ((∃ p, read source offset = .ok p) → Nested (marks source) ∧ isComplete source = true) ∧
      (isComplete source = false → ∃ faults, read source offset = .error faults) := by
  have hnested : (∃ p, read source offset = .ok p) →
      Nested (marks source) ∧ isComplete source = true := by
    rintro ⟨p, hp⟩
    obtain ⟨hread, htokens⟩ := read_eq_map_ok hp
    have hprogram := (read_eq_ok.1 hp).2
    have hmarks : Nested (marks source) := by
      have hneutral := hprogram.neutral trivial []
      unfold Grammar.openBehind at hneutral
      rw [htokens] at hneutral
      unfold Nested marks
      rw [hread, lexemesOf_map_ok]
      exact hneutral
    refine ⟨hmarks, (isComplete_iff source).2 ⟨fun s hs ↦ ?_, hmarks.openings_eq.le⟩⟩
    rw [hread] at hs
    simp at hs
  refine ⟨hnested, fun hmore ↦ ?_⟩
  cases hread : read source offset with
  | ok p =>
    rw [(hnested ⟨p, hread⟩).2] at hmore
    cases hmore
  | error faults => exact ⟨faults, rfl⟩

/-- A bracket in a string is not counted. -/
theorem brackets_nested_of_read_block :
    (∃ p, read "\x7bf(\"(\");\x7d" 7 = .ok p) ∧ Nested (marks "\x7bf(\"(\");\x7d") ∧
      isComplete "\x7bf(\"(\");\x7d" = true := by
  have hread : read "\x7bf(\"(\");\x7d" 7 = .ok [.block ⟨7, 16⟩ [.expression ⟨8, 15⟩
      (.call ⟨8, 14⟩ (.var ⟨8, 9⟩ "f") [.literal ⟨10, 13⟩ (.string "(")])]] := by
    decide +kernel
  exact ⟨⟨_, hread⟩, (brackets_nested_of_read "\x7bf(\"(\");\x7d" 7).1 ⟨_, hread⟩⟩

end Program

end LoxLang
