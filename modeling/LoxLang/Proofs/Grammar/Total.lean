import LoxLang.Proofs.Grammar.Listing
import LoxLang.Proofs.Grammar.Soundness

/-!
# Reading comes to an end

A reader passes tokens, and what it calls before it has passed one is of a lower rank: an
expression is read by way of operands, a declaration by way of statements. So fuel in proportion to
the tokens ahead is enough for every reader at every list, also where faults are noted and tokens
are skipped after them (`Reader.exists_program`). No reader goes astray, because each has seen a
token ahead when it passes one.

What is noted on the way is orderly, and an expression that is read has the extent of its tokens.
Both are proved along with the end of the reading: a fault is charged where a reader stops, and some
faults are charged to what a reader has read. So a list of tokens that is no program has faults of
the grammar and no others (`Program.of_ofLexemes_error`).
-/

namespace LoxLang

/-- From so many tokens ahead, there is a value after at least `k` of them, as the condition says,
or the token that is then ahead is at fault. What is noted is orderly. -/
def Outcome.Within {α : Type} (L : Listing) (n k : Nat) (Q : α → Cursor → Prop) :
    Outcome α → Prop
  | .ok a d => d.rest.length + k ≤ n ∧ d.Orderly L ∧ Q a d
  | .fault f d => d.rest.length ≤ n ∧ d.Orderly L ∧ ∃ expected, f = d.unexpected expected
  | .exhausted | .astray _ => False

/-- With more tokens ahead at first, less to be passed and a weaker condition, the outcome is within
the bounds still. -/
theorem Outcome.Within.mono {α : Type} {L : Listing} {m n j k : Nat} {P Q : α → Cursor → Prop}
    {o : Outcome α} (h : o.Within L m j P) (hm : m ≤ n) (hk : m + k ≤ n + j)
    (hQ : ∀ a d, P a d → Q a d) : o.Within L n k Q := by
  cases o with
  | ok a d =>
    obtain ⟨hle, hd, ha⟩ := h
    exact ⟨by omega, hd, hQ a d ha⟩
  | fault f d =>
    obtain ⟨hle, hd, hf⟩ := h
    exact ⟨by omega, hd, hf⟩
  | exhausted => exact h
  | astray => exact h

namespace Reader

variable {α β : Type} {L : Listing} {j k : Nat} {p : Reader α} {f : α → Reader β} {c : Cursor}
  {P : α → Cursor → Prop} {Q : β → Cursor → Prop}

/-- From an orderly cursor, the reader comes to a value after at least `k` tokens, as the condition
says, or to a fault of the token that is then ahead. -/
def Yields (L : Listing) (k : Nat) (p : Reader α) (c : Cursor) (Q : α → Cursor → Prop) : Prop :=
  c.Orderly L → (p c).Within L c.rest.length k Q

/-- From an orderly cursor, the reader comes to a value after at least `k` tokens, or to a fault of
the token that is then ahead. -/
abbrev Passes (L : Listing) (k : Nat) (p : Reader α) (c : Cursor) : Prop :=
  Yields L k p c fun _ _ ↦ True

/-- The reader passes a token at least, and what it reads has the extent of what it passes. -/
abbrev Covers (L : Listing) (p : Reader α) (c : Cursor) (span : α → Span) : Prop :=
  Yields L 1 p c fun a d ↦ c.Spans L d (span a)

theorem rest_ne_nil_of_sees {m : Mark} (h : c.rest.head?.any (·.token.isMark m) = true) :
    c.rest ≠ [] := by
  obtain ⟨x, ts, hrest, -⟩ := sees_iff.1 h
  rw [hrest]
  exact List.cons_ne_nil _ _

theorem rest_ne_nil_of_peek {t : Token} (h : c.rest.head?.map (·.token) = some t) :
    c.rest ≠ [] := by
  obtain ⟨x, ts, hrest, -⟩ := head_eq_some.1 h
  rw [hrest]
  exact List.cons_ne_nil _ _

namespace Yields

theorem mono (h : Yields L j p c P) (hk : k ≤ j) : Yields L k p c P :=
  fun hc ↦ (h hc).mono (Nat.le_refl _) (by omega) fun _ _ ↦ id

/-- Only what is orderly matters. -/
theorem of_orderly (h : c.Orderly L → Yields L k p c P) : Yields L k p c P :=
  fun hc ↦ h hc hc

protected theorem pure {a : α} (ha : P a c) : Yields L 0 (pure a) c P :=
  fun hc ↦ ⟨Nat.le_refl _, hc, ha⟩

/-- A fault that a reader reports is one of the token ahead. -/
protected theorem unexpected (expected : List String) (c : Cursor) :
    Yields L k (unexpected expected) c P :=
  fun hc ↦ ⟨Nat.le_refl _, hc, expected, rfl⟩

/-- Each of two readers passes its share. -/
protected theorem bind (hp : Yields L j p c P)
    (hf : ∀ a d, d.rest.length + j ≤ c.rest.length → P a d → Yields L (k - j) (f a) d Q) :
    Yields L k (p >>= f) c Q := by
  intro hc
  have hp := hp hc
  show (Reader.bind p f c).Within ..
  unfold Reader.bind
  cases ho : p c with
  | ok a d =>
    rw [ho] at hp
    obtain ⟨hle, hd, ha⟩ := hp
    exact (hf a d hle ha hd).mono (Nat.le_of_add_right_le hle) (by omega) fun _ _ ↦ id
  | fault e d =>
    rw [ho] at hp
    exact hp
  | exhausted =>
    rw [ho] at hp
    exact hp
  | astray m =>
    rw [ho] at hp
    exact hp

/-- Behind a reader nothing has to be passed. -/
protected theorem andThen (hp : Yields L j p c P)
    (hf : ∀ a d, d.rest.length ≤ c.rest.length → P a d → Yields L 0 (f a) d Q) :
    Yields L 0 (p >>= f) c Q :=
  .bind (hp.mono (Nat.zero_le j)) hf

/-! Looking ahead -/

/-- To look ahead passes no token. -/
protected theorem peek {f : Option Token → Reader β}
    (h : Yields L k (f (c.rest.head?.map (·.token))) c Q) : Yields L k (peek >>= f) c Q := h

protected theorem peekSecond {f : Option Token → Reader β}
    (h : Yields L k (f (c.rest.tail.head?.map (·.token))) c Q) :
    Yields L k (peekSecond >>= f) c Q := h

protected theorem sees {m : Mark} {f : Bool → Reader β}
    (h : Yields L k (f (c.rest.head?.any (·.token.isMark m))) c Q) :
    Yields L k (sees m >>= f) c Q := h

protected theorem atEnd {f : Bool → Reader β} (h : Yields L k (f c.rest.isEmpty) c Q) :
    Yields L k (atEnd >>= f) c Q := h

/-- What has been passed since an offset extends to the last token that was passed. -/
protected theorem spanFrom {start : Nat} {f : Span → Reader β}
    (h : Yields L k (f ⟨start, c.reached⟩) c Q) : Yields L k (spanFrom start >>= f) c Q := h

/-! Passing tokens -/

/-- A token that is ahead is passed. -/
protected theorem take {x : Lexeme} {ts : List Lexeme} (h : c.rest = x :: ts) :
    Yields L 1 take c fun y d ↦ y = x ∧ c.Spans L d y.span := by
  intro hc
  rw [take_cons h]
  have hrest := Cursor.rest_advance h
  have hsuffix := hc.rest
  rw [h] at hsuffix
  refine ⟨?_, hc.advance, rfl, ?_⟩
  · simp only [hrest, h, List.length_cons, Nat.le_refl]
  · rw [Cursor.Spans, hrest, h]
    exact Listing.extent_span hsuffix

/-- A token that is ahead is passed. -/
protected theorem skip (hc : c.rest ≠ []) : Covers L skip c id := by
  obtain ⟨x, ts, hrest⟩ := List.exists_cons_of_ne_nil hc
  exact .bind (.take hrest) fun y d hd ⟨_, hspan⟩ ↦ .pure hspan

/-- An expected mark is passed, or the token ahead is at fault. -/
protected theorem expect (m : Mark) (c : Cursor) : Covers L (expect m) c id := by
  refine .sees ?_
  split
  · exact .skip (rest_ne_nil_of_sees ‹_›)
  · exact .unexpected _ _

/-- An expected name is passed, or the token ahead is at fault. -/
protected theorem expectName (what : String) (c : Cursor) :
    Covers L (expectName what) c Name.span := by
  refine .peek ?_
  split
  · rename_i text hpeek
    obtain ⟨x, ts, hrest, hx⟩ := head_eq_some.1 hpeek
    refine .bind (.take hrest) fun y d hd ⟨hy, hspan⟩ ↦ ?_
    rw [hy] at hspan ⊢
    simp only [hx]
    exact .pure hspan
  · exact .unexpected _ _

/-- A fault may be noted on the way. -/
theorem noteIf {b : Prop} [Decidable b] {e : Fault} {f : Unit → Reader β} (he : e.Marginal L)
    (h : ∀ d, d.rest = c.rest → Yields L k (f ()) d Q) :
    Yields L k (if b then note e >>= f else f ()) c Q := by
  split
  · intro hc
    exact h (c.note e) rfl (hc.note he)
  · exact h c rfl

end Yields

namespace Passes

protected theorem map {g : α → β} (hp : Yields L k p c P) : Passes L 0 (g <$> p) c :=
  Yields.andThen hp fun _ _ _ _ ↦ .pure trivial

/-- A mark that may be there is passed if it is, and nothing is at fault if it is not. -/
protected theorem accept (m : Mark) (c : Cursor) : Passes L 0 (accept m) c := by
  refine .sees ?_
  split
  · exact .bind (.skip (rest_ne_nil_of_sees ‹_›)) fun _ _ _ _ ↦ .pure trivial
  · exact .pure trivial

/-- A reader that is not tried passes nothing. -/
protected theorem unlessSees {m : Mark} (hp : Yields L k p c P) :
    Passes L 0 (unlessSees m p) c := by
  refine .sees ?_
  split
  · exact .pure trivial
  · exact .andThen hp fun _ _ _ _ ↦ .pure trivial

/-- After a fault, what is skipped begins with the token at fault. -/
protected theorem recovering (hc : c.rest ≠ []) (h : Yields L 1 p c P) :
    Passes L 1 (recovering p) c := by
  intro hn
  have hp := h hn
  unfold recovering
  cases ho : p c with
  | ok a d =>
    rw [ho] at hp
    exact ⟨hp.1, hp.2.1, trivial⟩
  | fault f d =>
    rw [ho] at hp
    obtain ⟨hle, hd, expected, rfl⟩ := hp
    have hpos := List.length_pos_iff.2 hc
    obtain ⟨hrecover, hlength⟩ := Cursor.orderly_recover (hd.charge expected)
    rw [Cursor.rest_note] at hlength
    exact ⟨by omega, hrecover, trivial⟩
  | exhausted =>
    rw [ho] at hp
    exact hp
  | astray m =>
    rw [ho] at hp
    exact hp

end Passes

end Reader

/-! ### Every reader -/

open Reader (Yields Passes Covers)

/-- What holds of all readers with this much fuel: it is enough if it exceeds 32 for each token
ahead and the rank of the reader. -/
structure EndsAt (L : Listing) (fuel : Nat) : Prop where
  expression : ∀ c, 32 * c.rest.length + 9 < fuel →
    Covers L (Reader.expression fuel) c Expr.span
  binary : ∀ levels c, 32 * c.rest.length + 2 + levels.length < fuel →
    Covers L (Reader.binary fuel levels) c Expr.span
  chain : ∀ level tighter left m c, 32 * c.rest.length + tighter.length < fuel →
    L.Extent m c.rest.length left.span →
    Yields L 0 (Reader.chain fuel level tighter left) c fun e d ↦
      L.Extent m d.rest.length e.span
  unary : ∀ c, 32 * c.rest.length + 1 < fuel → Covers L (Reader.unary fuel) c Expr.span
  suffixes : ∀ callee m c, 32 * c.rest.length < fuel → L.Extent m c.rest.length callee.span →
    Yields L 0 (Reader.suffixes fuel callee) c fun e d ↦ L.Extent m d.rest.length e.span
  arguments : ∀ count c, 32 * c.rest.length + 10 < fuel →
    Passes L 1 (Reader.arguments fuel count) c
  primary : ∀ c, 32 * c.rest.length < fuel → Covers L (Reader.primary fuel) c Expr.span
  function : ∀ start n c, 32 * c.rest.length < fuel →
    Yields L 1 (Reader.function fuel start n) c fun f d ↦
      f.span.start = start ∧ L.Stops c.rest.length d.rest.length f.span.stop
  parameters : ∀ count c, 32 * c.rest.length < fuel →
    Passes L 1 (Reader.parameters fuel count) c
  blockBody : ∀ c, 32 * c.rest.length + 13 < fuel → Passes L 1 (Reader.blockBody fuel) c
  declaration : ∀ c, 32 * c.rest.length + 12 < fuel → Passes L 1 (Reader.declaration fuel) c
  classDecl : ∀ c, 32 * c.rest.length < fuel → c.rest ≠ [] →
    Passes L 1 (Reader.classDecl fuel) c
  methods : ∀ c, 32 * c.rest.length < fuel → Passes L 0 (Reader.methods fuel) c
  varDecl : ∀ c, 32 * c.rest.length < fuel → c.rest ≠ [] → Passes L 1 (Reader.varDecl fuel) c
  expressionStmt : ∀ c, 32 * c.rest.length + 10 < fuel →
    Passes L 1 (Reader.expressionStmt fuel) c
  statement : ∀ c, 32 * c.rest.length + 11 < fuel → Passes L 1 (Reader.statement fuel) c
  forLoop : ∀ c, 32 * c.rest.length < fuel → c.rest ≠ [] → Passes L 1 (Reader.forLoop fuel) c

namespace EndsAt

variable {L : Listing} {fuel : Nat} {c : Cursor}

/-! Expressions -/

/-- An assignment extends from its target to its value; a target that is none is noted. -/
theorem assignTo {target value : Expr} {equals : Span} {m n : Nat}
    (ht : L.Extent m n target.span) (he : (⟨.invalidAssignmentTarget, equals⟩ : Fault).Marginal L)
    (hv : L.Extent n c.rest.length value.span) :
    Yields L 0 (Reader.assignTo target equals value) c fun e d ↦
      L.Extent m d.rest.length e.span := by
  unfold Reader.assignTo
  split
  · exact .pure (ht.through hv)
  · exact .pure (ht.through hv)
  · exact fun hc ↦ ⟨Nat.le_refl _, hc.note he, ht.mono (Nat.le_refl _) hv.le⟩

/-- An expression is read to its end, and its span is that of the tokens passed. -/
theorem expression_succ (ih : EndsAt L fuel) (hfuel : 32 * c.rest.length + 9 < fuel + 1) :
    Covers L (Reader.expression (fuel + 1)) c Expr.span := by
  have hlevels : BinaryOp.levels.length = 6 := rfl
  rw [Reader.expression]
  refine .bind (ih.binary _ c (by omega)) fun target d hd ht ↦ .sees ?_
  split
  · have hsees := Reader.rest_ne_nil_of_sees ‹_›
    refine .andThen (.skip hsees) fun equals d₁ hd₁ he ↦ ?_
    refine .andThen (ih.expression d₁ (by omega)) fun value d₂ _ hv ↦ ?_
    exact assignTo ht (.of_extent he rfl rfl) (hv.mono hd₁ (Nat.le_refl _))
  · exact .pure ht

/-- The operations of a level are read to their end, and their span is that of the tokens passed. -/
theorem binary_succ (ih : EndsAt L fuel) (levels : List (List (Mark × BinaryOp)))
    (hfuel : 32 * c.rest.length + 2 + levels.length < fuel + 1) :
    Covers L (Reader.binary (fuel + 1) levels) c Expr.span := by
  cases levels with
  | nil =>
    rw [Reader.binary]
    exact ih.unary c (by rw [List.length_nil] at hfuel; omega)
  | cons level tighter =>
    rw [List.length_cons] at hfuel
    rw [Reader.binary]
    refine .bind (ih.binary tighter c (by omega)) fun left d hd hleft ↦ ?_
    exact ih.chain level tighter left _ d (by omega) hleft

/-- A chain of operations extends from its first operand to its last. -/
theorem chain_succ (ih : EndsAt L fuel) (level : List (Mark × BinaryOp))
    (tighter : List (List (Mark × BinaryOp))) (left : Expr) (m : Nat)
    (hfuel : 32 * c.rest.length + tighter.length < fuel + 1)
    (hleft : L.Extent m c.rest.length left.span) :
    Yields L 0 (Reader.chain (fuel + 1) level tighter left) c fun e d ↦
      L.Extent m d.rest.length e.span := by
  rw [Reader.chain]
  refine .peek ?_
  split
  · rename_i op hop
    obtain ⟨mark, -, hmark⟩ := Grammar.of_ofToken? hop
    refine .bind (.skip (Reader.rest_ne_nil_of_peek hmark)) fun _ d hd _ ↦ ?_
    refine .bind (ih.binary tighter d (by omega)) fun right d₁ hd₁ hright ↦ ?_
    exact ih.chain level tighter _ m d₁ (by omega)
      (hleft.through (hright.mono (by omega) (Nat.le_refl _)))
  · exact .pure hleft

/-- An operand is read to its end, and its span is that of the tokens passed. -/
theorem unary_succ (ih : EndsAt L fuel) (hfuel : 32 * c.rest.length + 1 < fuel + 1) :
    Covers L (Reader.unary (fuel + 1)) c Expr.span := by
  have operand (op : UnaryOp) (hc : c.rest ≠ []) : Covers L (do
      let sign ← Reader.skip
      let operand ← Reader.unary fuel
      return Expr.unary (sign.through operand.span) op operand) c Expr.span := by
    refine .bind (.skip hc) fun sign d hd hsign ↦ ?_
    exact .andThen (ih.unary d (by omega)) fun _ _ _ hoperand ↦ .pure (hsign.through hoperand)
  rw [Reader.unary]
  refine .peek ?_
  split
  · exact operand .not (Reader.rest_ne_nil_of_peek ‹_›)
  · exact operand .negate (Reader.rest_ne_nil_of_peek ‹_›)
  · split
    · rename_i op hop
      have hc := Reader.rest_ne_nil_of_peek (Grammar.of_stepOp? hop)
      refine .bind (.skip hc) fun sign d _ hsign ↦ ?_
      exact .andThen (.expectName _ d) fun _ _ _ hname ↦ .pure (hsign.through hname)
    · refine .bind (ih.primary c (by omega)) fun callee d hd hcallee ↦ ?_
      exact ih.suffixes callee _ d (by omega) hcallee

/-- Suffixes extend the expression before them. -/
theorem suffixes_succ (ih : EndsAt L fuel) (callee : Expr) (m : Nat)
    (hfuel : 32 * c.rest.length < fuel + 1) (hcallee : L.Extent m c.rest.length callee.span) :
    Yields L 0 (Reader.suffixes (fuel + 1) callee) c fun e d ↦
      L.Extent m d.rest.length e.span := by
  rw [Reader.suffixes]
  refine .peek ?_
  split
  · refine .bind (.skip (Reader.rest_ne_nil_of_peek ‹_›)) fun _ d hd _ ↦ ?_
    refine .bind (Passes.unlessSees (ih.arguments 0 d (by omega))) fun _ d₁ hd₁ _ ↦ ?_
    refine .bind (.expect _ d₁) fun close d₂ hd₂ hclose ↦ ?_
    exact ih.suffixes _ m d₂ (by omega)
      (hcallee.through (hclose.mono (by omega) (Nat.le_refl _)))
  · refine .bind (.skip (Reader.rest_ne_nil_of_peek ‹_›)) fun _ d hd _ ↦ ?_
    refine .bind (.expectName _ d) fun _ d₁ hd₁ hname ↦ ?_
    exact ih.suffixes _ m d₁ (by omega)
      (hcallee.through (hname.mono (by omega) (Nat.le_refl _)))
  · exact .pure hcallee

/-- Arguments are read to their end, and there is one at least. -/
theorem arguments_succ (ih : EndsAt L fuel) (count : Nat)
    (hfuel : 32 * c.rest.length + 10 < fuel + 1) :
    Passes L 1 (Reader.arguments (fuel + 1) count) c := by
  rw [Reader.arguments]
  refine Yields.bind (ih.expression c (by omega)) fun argument d hd hspan ↦ ?_
  refine .noteIf (.of_extent hspan rfl rfl) fun d₁ hd₁ ↦ ?_
  rw [← hd₁] at hd
  refine .bind (Passes.accept _ d₁) fun more d₂ hd₂ _ ↦ ?_
  split
  · exact .andThen (ih.arguments _ d₂ (by omega)) fun _ _ _ _ ↦ .pure trivial
  · exact .pure trivial

/-- A primary expression is read to its end, and its span is that of the tokens passed. -/
theorem primary_succ (ih : EndsAt L fuel) (hfuel : 32 * c.rest.length < fuel + 1) :
    Covers L (Reader.primary (fuel + 1)) c Expr.span := by
  rw [Reader.primary]
  refine .peek ?_
  split
  · rename_i v hv
    have hc : c.rest ≠ [] := by
      intro hnil
      rw [hnil] at hv
      cases hv
    exact .bind (.skip hc) fun _ _ _ hspan ↦ .pure hspan
  · split
    · -- a name
      refine .bind (.expectName _ c) fun name d _ hname ↦ .peek ?_
      split
      · rename_i op hop
        have hd := Reader.rest_ne_nil_of_peek (Grammar.of_stepOp? hop)
        exact .andThen (.skip hd) fun _ _ _ hsign ↦ .pure (hname.through hsign)
      · exact .pure hname
    · exact .bind (.skip (Reader.rest_ne_nil_of_peek ‹_›)) fun _ _ _ hspan ↦ .pure hspan
    · -- `super`
      refine .bind (.skip (Reader.rest_ne_nil_of_peek ‹_›)) fun word d _ hword ↦ ?_
      refine .andThen (.expect _ d) fun _ d₁ hd₁ _ ↦ ?_
      exact .andThen (.expectName _ d₁) fun _ _ _ hname ↦
        .pure (hword.through (hname.mono hd₁ (Nat.le_refl _)))
    · -- an expression in parentheses
      refine .bind (.skip (Reader.rest_ne_nil_of_peek ‹_›)) fun opening d hd hopening ↦ ?_
      refine .andThen (ih.expression d (by omega)) fun _ d₁ hd₁ _ ↦ ?_
      exact .andThen (.expect _ d₁) fun _ _ _ hclosing ↦
        .pure (hopening.through (hclosing.mono hd₁ (Nat.le_refl _)))
    · -- a function
      refine .bind (.skip (Reader.rest_ne_nil_of_peek ‹_›)) fun word d hd hword ↦ ?_
      refine .andThen (ih.function word.start _ d (by omega)) fun f d₁ _ ⟨hstart, hstop⟩ ↦ .pure ?_
      have hextent := hword.upTo hstop
      rw [id, ← hstart] at hextent
      exact hextent
    · exact .unexpected _ _

/-! Functions -/

/-- A function is read to its end, and its span reaches to its closing brace. -/
theorem function_succ (ih : EndsAt L fuel) (start : Nat) (n : String)
    (hfuel : 32 * c.rest.length < fuel + 1) :
    Yields L 1 (Reader.function (fuel + 1) start n) c fun f d ↦
      f.span.start = start ∧ L.Stops c.rest.length d.rest.length f.span.stop := by
  refine .of_orderly fun hc ↦ ?_
  have hsuffix := hc.rest.length_le
  rw [Reader.function]
  refine .bind (.expect _ c) fun _ d hd _ ↦ ?_
  refine .bind (Passes.unlessSees (ih.parameters 0 d (by omega))) fun _ d₁ hd₁ _ ↦ ?_
  refine .andThen (.expect _ d₁) fun _ d₂ hd₂ _ ↦ ?_
  refine .andThen (.expect _ d₂) fun _ d₃ hd₃ _ ↦ ?_
  refine .andThen (ih.blockBody d₃ (by omega)) fun _ d₄ hd₄ _ ↦ .spanFrom ?_
  refine .of_orderly fun hd₄ ↦ .pure ⟨rfl, ?_⟩
  exact (hd₄.stops_reached (by omega)).mono (by omega) (Nat.le_refl _)

/-- Parameters are read to their end, and there is one at least. -/
theorem parameters_succ (ih : EndsAt L fuel) (count : Nat)
    (hfuel : 32 * c.rest.length < fuel + 1) :
    Passes L 1 (Reader.parameters (fuel + 1) count) c := by
  rw [Reader.parameters]
  refine Yields.bind (.expectName _ c) fun param d hd hspan ↦ ?_
  refine .noteIf (.of_extent hspan rfl rfl) fun d₁ hd₁ ↦ ?_
  rw [← hd₁] at hd
  refine .bind (Passes.accept _ d₁) fun more d₂ hd₂ _ ↦ ?_
  split
  · exact .andThen (ih.parameters _ d₂ (by omega)) fun _ _ _ _ ↦ .pure trivial
  · exact .pure trivial

/-- No token is ahead at the end only. -/
theorem rest_ne_nil {b : Bool} (h : ¬(b || c.rest.isEmpty) = true) : c.rest ≠ [] := by
  intro hnil
  rw [hnil, List.isEmpty_nil, Bool.or_true] at h
  exact h rfl

/-- A block is read to its end, which takes the closing brace. -/
theorem blockBody_succ (ih : EndsAt L fuel) (hfuel : 32 * c.rest.length + 13 < fuel + 1) :
    Passes L 1 (Reader.blockBody (fuel + 1)) c := by
  rw [Reader.blockBody]
  refine .sees (.atEnd ?_)
  split
  · exact .bind (.expect _ c) fun _ _ _ _ ↦ .pure trivial
  · rename_i hmore
    have hdeclaration := ih.declaration c (by omega)
    refine .bind (Passes.recovering (rest_ne_nil hmore) hdeclaration) fun _ d hd _ ↦ ?_
    exact .andThen (ih.blockBody d (by omega)) fun _ _ _ _ ↦ .pure trivial

/-! Declarations -/

/-- A declaration is read to its end, whichever it is. -/
theorem declaration_succ (ih : EndsAt L fuel) (hfuel : 32 * c.rest.length + 12 < fuel + 1) :
    Passes L 1 (Reader.declaration (fuel + 1)) c := by
  rw [Reader.declaration]
  refine .peek ?_
  split
  · exact ih.classDecl c (by omega) (Reader.rest_ne_nil_of_peek ‹_›)
  · refine .peekSecond ?_
    split
    · refine .bind (.skip (Reader.rest_ne_nil_of_peek ‹_›)) fun _ d hd _ ↦ ?_
      refine .andThen (.expectName _ d) fun _ d₁ hd₁ _ ↦ ?_
      exact .andThen (ih.function _ _ d₁ (by omega)) fun _ _ _ _ ↦ .pure trivial
    · exact ih.statement c (by omega)
  · exact ih.varDecl c (by omega) (Reader.rest_ne_nil_of_peek ‹_›)
  · exact ih.statement c (by omega)

/-- The methods of a class, in braces. -/
theorem classBody (ih : EndsAt L fuel) (word : Span) (name : String) (superclass : Option Name)
    (hfuel : 32 * c.rest.length < fuel) :
    Passes L 0 (do
      let _ ← Reader.expect .leftBrace
      let methods ← Reader.methods fuel
      let closing ← Reader.expect .rightBrace
      return Stmt.classDecl (word.through closing) name superclass methods) c := by
  refine .andThen (.expect _ c) fun _ d hd _ ↦ ?_
  refine .bind (ih.methods d (by omega)) fun _ d₁ _ _ ↦ ?_
  exact .andThen (.expect _ d₁) fun _ _ _ _ ↦ .pure trivial

/-- A class is read to its end. -/
theorem classDecl_succ (ih : EndsAt L fuel) (hfuel : 32 * c.rest.length < fuel + 1)
    (hc : c.rest ≠ []) :
    Passes L 1 (Reader.classDecl (fuel + 1)) c := by
  rw [Reader.classDecl]
  refine .bind (.skip hc) fun word d hd _ ↦ .bind (.expectName _ d) fun name d₁ hd₁ _ ↦ ?_
  refine .bind (Passes.accept _ d₁) fun inherits d₂ hd₂ _ ↦ ?_
  split
  · have hparent : Passes L 0 (some <$> Reader.expectName "superclass name") d₂ :=
      .map (.expectName _ d₂)
    exact .bind hparent fun parent d₃ hd₃ _ ↦ ih.classBody _ _ parent (by omega)
  · exact ih.classBody _ _ none (by omega)

/-- Methods are read as long as a name is ahead, perhaps none. -/
theorem methods_succ (ih : EndsAt L fuel) (hfuel : 32 * c.rest.length < fuel + 1) :
    Passes L 0 (Reader.methods (fuel + 1)) c := by
  rw [Reader.methods]
  refine .sees (.atEnd ?_)
  split
  · exact .pure trivial
  · refine .bind (.expectName _ c) fun name d hd _ ↦ ?_
    refine .bind (ih.function _ _ d (by omega)) fun first d₁ hd₁ _ ↦ ?_
    exact .bind (ih.methods d₁ (by omega)) fun _ _ _ _ ↦ .pure trivial

/-- The declaration of a variable is read to its end. -/
theorem varDecl_succ (ih : EndsAt L fuel) (hfuel : 32 * c.rest.length < fuel + 1)
    (hc : c.rest ≠ []) :
    Passes L 1 (Reader.varDecl (fuel + 1)) c := by
  rw [Reader.varDecl]
  refine .bind (.skip hc) fun word d hd _ ↦ .bind (.expectName _ d) fun name d₁ hd₁ _ ↦ ?_
  refine .bind (Passes.accept _ d₁) fun hasValue d₂ hd₂ _ ↦ ?_
  have closing (value : Option Expr) (d₃ : Cursor) : Passes L 0 (do
      let closing ← Reader.expect .semicolon
      return Stmt.varDecl (word.through closing) name.text value) d₃ :=
    .andThen (.expect _ d₃) fun _ _ _ _ ↦ .pure trivial
  split
  · have hvalue : Passes L 0 (some <$> Reader.expression fuel) d₂ :=
      .map (ih.expression d₂ (by omega))
    exact .bind hvalue fun value d₃ _ _ ↦ closing value d₃
  · exact closing none d₂

/-! Statements -/

/-- An expression statement is read to its end. -/
theorem expressionStmt_succ (ih : EndsAt L fuel) (hfuel : 32 * c.rest.length + 10 < fuel + 1) :
    Passes L 1 (Reader.expressionStmt (fuel + 1)) c := by
  rw [Reader.expressionStmt]
  refine .bind (ih.expression c (by omega)) fun _ d _ _ ↦ ?_
  exact .andThen (.expect _ d) fun _ _ _ _ ↦ .pure trivial

/-- A statement is read to its end, whichever it is. -/
theorem statement_succ (ih : EndsAt L fuel) (hfuel : 32 * c.rest.length + 11 < fuel + 1) :
    Passes L 1 (Reader.statement (fuel + 1)) c := by
  rw [Reader.statement]
  refine .peek ?_
  split
  · exact ih.forLoop c (by omega) (Reader.rest_ne_nil_of_peek ‹_›)
  · -- `if`
    refine .bind (.skip (Reader.rest_ne_nil_of_peek ‹_›)) fun _ d hd _ ↦ ?_
    refine .andThen (.expect _ d) fun _ d₁ hd₁ _ ↦ ?_
    refine .andThen (ih.expression d₁ (by omega)) fun _ d₂ hd₂ _ ↦ ?_
    refine .andThen (.expect _ d₂) fun _ d₃ hd₃ _ ↦ ?_
    refine .andThen (ih.statement d₃ (by omega)) fun yes d₄ hd₄ _ ↦ ?_
    refine .bind (Passes.accept _ d₄) fun hasElse d₅ hd₅ _ ↦ ?_
    split
    · have hno : Passes L 0 (some <$> Reader.statement fuel) d₅ :=
        .map (ih.statement d₅ (by omega))
      exact .bind hno fun _ _ _ _ ↦ .pure trivial
    · exact .pure trivial
  · -- a block
    refine .bind (.skip (Reader.rest_ne_nil_of_peek ‹_›)) fun _ d hd _ ↦ ?_
    refine .andThen (ih.blockBody d (by omega)) fun _ d₁ _ _ ↦ .spanFrom ?_
    exact .pure trivial
  · -- `print`
    refine .bind (.skip (Reader.rest_ne_nil_of_peek ‹_›)) fun _ d hd _ ↦ ?_
    refine .andThen (ih.expression d (by omega)) fun _ d₁ _ _ ↦ ?_
    exact .andThen (.expect _ d₁) fun _ _ _ _ ↦ .pure trivial
  · -- `return`
    refine .bind (.skip (Reader.rest_ne_nil_of_peek ‹_›)) fun _ d hd _ ↦ ?_
    refine .bind (Passes.unlessSees (ih.expression d (by omega))) fun _ d₁ _ _ ↦ ?_
    exact .andThen (.expect _ d₁) fun _ _ _ _ ↦ .pure trivial
  · -- `while`
    refine .bind (.skip (Reader.rest_ne_nil_of_peek ‹_›)) fun _ d hd _ ↦ ?_
    refine .andThen (.expect _ d) fun _ d₁ hd₁ _ ↦ ?_
    refine .andThen (ih.expression d₁ (by omega)) fun _ d₂ hd₂ _ ↦ ?_
    refine .andThen (.expect _ d₂) fun _ d₃ hd₃ _ ↦ ?_
    exact .andThen (ih.statement d₃ (by omega)) fun _ _ _ _ ↦ .pure trivial
  · exact ih.expressionStmt c (by omega)

/-- The clauses of a `for` after the first, and the body. -/
theorem clauses (ih : EndsAt L fuel) (word : Span) (init : Option Stmt)
    (hfuel : 32 * c.rest.length + 11 < fuel) :
    Passes L 0 (do
      let condition ← Reader.unlessSees .semicolon (Reader.expression fuel)
      let _ ← Reader.expect .semicolon
      let step ← Reader.unlessSees .rightParen (Reader.expression fuel)
      let _ ← Reader.expect .rightParen
      let body ← Reader.statement fuel
      return Stmt.forLoop (word.through body.span) init condition step body) c := by
  refine .bind (Passes.unlessSees (ih.expression c (by omega))) fun _ d hd _ ↦ ?_
  refine .andThen (.expect _ d) fun _ d₁ hd₁ _ ↦ ?_
  refine .bind (Passes.unlessSees (ih.expression d₁ (by omega))) fun _ d₂ hd₂ _ ↦ ?_
  refine .andThen (.expect _ d₂) fun _ d₃ hd₃ _ ↦ ?_
  exact .andThen (ih.statement d₃ (by omega)) fun _ _ _ _ ↦ .pure trivial

/-- A loop with clauses is read to its end. -/
theorem forLoop_succ (ih : EndsAt L fuel) (hfuel : 32 * c.rest.length < fuel + 1)
    (hc : c.rest ≠ []) :
    Passes L 1 (Reader.forLoop (fuel + 1)) c := by
  rw [Reader.forLoop]
  refine .bind (.skip hc) fun word d hd _ ↦ .bind (.expect _ d) fun _ d₁ hd₁ _ ↦ .peek ?_
  split
  · refine .bind (.skip (Reader.rest_ne_nil_of_peek ‹_›)) fun _ d₂ hd₂ _ ↦ ?_
    exact ih.clauses word none (by omega)
  · have hinit : Passes L 0 (some <$> Reader.varDecl fuel) d₁ :=
      .map (ih.varDecl d₁ (by omega) (Reader.rest_ne_nil_of_peek ‹_›))
    exact .bind hinit fun init d₂ hd₂ _ ↦ ih.clauses word init (by omega)
  · have hinit : Passes L 0 (some <$> Reader.expressionStmt fuel) d₁ :=
      .map (ih.expressionStmt d₁ (by omega))
    exact .bind hinit fun init d₂ hd₂ _ ↦ ih.clauses word init (by omega)

end EndsAt

/-- Fuel in proportion to the tokens ahead is enough for every reader. -/
theorem endsAt (L : Listing) (fuel : Nat) : EndsAt L fuel := by
  induction fuel with
  | zero => constructor <;> intros <;> omega
  | succ fuel ih =>
    exact {
      expression := fun _ ↦ ih.expression_succ
      binary := fun levels _ ↦ ih.binary_succ levels
      chain := fun level tighter left m _ ↦ ih.chain_succ level tighter left m
      unary := fun _ ↦ ih.unary_succ
      suffixes := fun callee m _ ↦ ih.suffixes_succ callee m
      arguments := fun count _ ↦ ih.arguments_succ count
      primary := fun _ ↦ ih.primary_succ
      function := fun start n _ ↦ ih.function_succ start n
      parameters := fun count _ ↦ ih.parameters_succ count
      blockBody := fun _ ↦ ih.blockBody_succ
      declaration := fun _ ↦ ih.declaration_succ
      classDecl := fun _ ↦ ih.classDecl_succ
      methods := fun _ ↦ ih.methods_succ
      varDecl := fun _ ↦ ih.varDecl_succ
      expressionStmt := fun _ ↦ ih.expressionStmt_succ
      statement := fun _ ↦ ih.statement_succ
      forLoop := fun _ ↦ ih.forLoop_succ }

/-! ### Programs -/

/-- Where a token is ahead, a declaration is read or given up, and either way a token is passed. -/
theorem Reader.exists_recovering {L : Listing} {depth : Nat} {c : Cursor} (hc : c.Orderly L)
    (hrest : c.rest ≠ []) (hdepth : 32 * c.rest.length + 12 < depth) :
    ∃ first d, Reader.recovering (Reader.declaration depth) c = .ok first d ∧
      d.rest.length < c.rest.length ∧ d.Orderly L := by
  have hread := Passes.recovering hrest ((endsAt L depth).declaration c hdepth) hc
  unfold Reader.recovering at hread ⊢
  cases ho : Reader.declaration depth c with
  | ok stmt d =>
    rw [ho] at hread
    exact ⟨_, _, rfl, hread.1, hread.2.1⟩
  | fault f d =>
    rw [ho] at hread
    exact ⟨_, _, rfl, hread.1, hread.2.1⟩
  | exhausted =>
    rw [ho] at hread
    exact hread.elim
  | astray m =>
    rw [ho] at hread
    exact hread.elim

/-- All declarations up to the end of the text are read. No fault gives up the whole. -/
theorem Reader.exists_program {L : Listing} {depth fuel : Nat} {c : Cursor} (hc : c.Orderly L)
    (hdepth : 32 * c.rest.length + 12 < depth) (hfuel : c.rest.length < fuel) :
    ∃ p d, Reader.program depth fuel c = .ok p d ∧ d.rest = [] ∧ d.Orderly L := by
  induction fuel generalizing c with
  | zero => omega
  | succ fuel ih =>
    rw [Reader.program, bind_atEnd, run_ite]
    split
    · rename_i hend
      exact ⟨[], c, rfl, List.isEmpty_iff.1 hend, hc⟩
    · rename_i hmore
      have hrest : c.rest ≠ [] := fun hnil ↦ hmore (by rw [hnil]; rfl)
      obtain ⟨first, d, hread, hlength, hd⟩ := exists_recovering hc hrest hdepth
      obtain ⟨others, e, hothers, he⟩ := ih hd (by omega) (by omega)
      exact ⟨_, e, bind_eq_ok.2 ⟨first, d, hread,
        bind_eq_ok.2 ⟨others, e, hothers, pure_eq_ok.2 ⟨rfl, rfl⟩⟩⟩, he⟩

/-- A list of tokens as a whole. -/
def Listing.whole (tokens : List Lexeme) (stop : Nat) : Listing := ⟨tokens, stop, []⟩

/-- A whole list is read to its end, and what is noted on the way decides what comes of it. -/
theorem Program.exists_ofLexemes (tokens : List Lexeme) (stop : Nat) :
    ∃ p d, Reader.program (Program.fuelFor tokens.length) (Program.fuelFor tokens.length)
        ⟨tokens, none, stop, []⟩ = .ok p d ∧
      d.rest = [] ∧ d.Orderly (.whole tokens stop) ∧
      Program.ofLexemes tokens stop = if d.faults.isEmpty then .ok p else .error d.faults := by
  have hstart : Cursor.Orderly (.whole tokens stop) ⟨tokens, none, stop, []⟩ :=
    ⟨rfl, List.suffix_refl _, .inl ⟨rfl, rfl⟩, .start _⟩
  have hmeasure : Program.fuelFor tokens.length = 32 * (tokens.length + 1) := rfl
  have hdepth : 32 * tokens.length + 12 < Program.fuelFor tokens.length := by omega
  have hfuel : tokens.length < Program.fuelFor tokens.length := by omega
  obtain ⟨p, d, hread, hrest, hd⟩ := Reader.exists_program hstart hdepth hfuel
  refine ⟨p, d, hread, hrest, hd, ?_⟩
  unfold Program.ofLexemes
  simp only [hread]

/-- A list of tokens is a program, or it has faults, at least one, and all of them are of the
grammar. -/
theorem Program.of_ofLexemes_error {ts : List Lexeme} {stop : Nat} {faults : List Fault}
    (h : Program.ofLexemes ts stop = .error faults) :
    faults ≠ [] ∧ ∀ f ∈ faults, f.cause.category = .grammar := by
  obtain ⟨p, d, -, -, hd, heq⟩ := Program.exists_ofLexemes ts stop
  rw [heq] at h
  split at h
  · cases h
  · rename_i hnonempty
    obtain rfl := Except.error.inj h
    exact ⟨fun hnil ↦ hnonempty (List.isEmpty_iff.2 hnil), hd.charged.category nofun⟩

end LoxLang
