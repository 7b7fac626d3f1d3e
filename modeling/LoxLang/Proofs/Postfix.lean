import LoxLang.Program.Postfix
import Mathlib.Data.List.Forall2

/-!
# Reading postfix notation

The words of postfix notation are read from left to right with a stack: an operand is pushed, and
an operator takes its operands from the stack and pushes the whole (`PostfixWord.apply`). Reading
the words of an expression pushes the expression (`Expr.readWords_words`), without its places, its
parentheses and what is inside its functions (`Expr.bare`). So the words tell the expression.

Some words are spelled alike: `neg` negates and is a name too, and `inf` is a name and the text of a
numeral that is too large (`PostfixWord.Alike`). As negation takes an operand and a name takes none,
the two cannot be mistaken for each other everywhere: each expression pushes one value more than it
takes (`Expr.surplus_words`), and so words that are spelled alike are the same, unless a name `neg`
and a negation, or a name `inf` and an infinite number, are there to be exchanged
(`Expr.words_eq_of_alike`).
-/

namespace LoxLang

/-- The words of postfix notation. -/
inductive PostfixWord where
  | literal (value : Literal)
  | name (x : String)
  /-- A variable that is assigned, with the equals sign. -/
  | assign (x : String)
  | step (side : Side) (op : StepOp) (x : String)
  | unary (op : UnaryOp)
  | binary (op : BinaryOp)
  /-- A call with so many arguments. -/
  | call (count : Nat)
  | property (x : String)
  | setProperty (x : String)
  | this
  | super (x : String)
  | function (x : String)

mutual

/-- The words of an expression, operands first. -/
def Expr.words : Expr → List PostfixWord
  | .literal _ value => [.literal value]
  | .var _ x => [.name x]
  | .assign _ x value => value.words ++ [.assign x]
  | .step _ side op x => [.step side op x]
  | .group _ inner => inner.words
  | .unary _ op operand => operand.words ++ [.unary op]
  | .binary _ op left right => left.words ++ right.words ++ [.binary op]
  | .call _ callee arguments => wordsOf arguments ++ callee.words ++ [.call arguments.length]
  | .property _ object x => object.words ++ [.property x]
  | .setProperty _ object x value => object.words ++ value.words ++ [.setProperty x]
  | .this _ => [.this]
  | .super _ x => [.super x]
  | .lambda f => [.function f.name]

/-- The words of several expressions, one after another. -/
def wordsOf : List Expr → List PostfixWord
  | [] => []
  | e :: rest => e.words ++ wordsOf rest

end

/-- The place of what has none. -/
def nowhere : Span := ⟨0, 0⟩

mutual

/-- The expression without its places, its parentheses, and the parameters and bodies of its
functions. -/
def Expr.bare : Expr → Expr
  | .literal _ value => .literal nowhere value
  | .var _ x => .var nowhere x
  | .assign _ x value => .assign nowhere x value.bare
  | .step _ side op x => .step nowhere side op x
  | .group _ inner => inner.bare
  | .unary _ op operand => .unary nowhere op operand.bare
  | .binary _ op left right => .binary nowhere op left.bare right.bare
  | .call _ callee arguments => .call nowhere callee.bare (bareOf arguments)
  | .property _ object x => .property nowhere object.bare x
  | .setProperty _ object x value => .setProperty nowhere object.bare x value.bare
  | .this _ => .this nowhere
  | .super _ x => .super nowhere x
  | .lambda f => .lambda (.mk nowhere f.name [] [])

/-- Each of the expressions in this form. -/
def bareOf : List Expr → List Expr
  | [] => []
  | e :: rest => e.bare :: bareOf rest

end

theorem length_bareOf (es : List Expr) : (bareOf es).length = es.length := by
  induction es with
  | nil => rfl
  | cons e es ih => exact congrArg Nat.succ ih

/-! ### Reading -/

namespace PostfixWord

/-- Reads a word, with what was read before it on the stack. -/
def apply : PostfixWord → List Expr → List Expr
  | literal value, stack => .literal nowhere value :: stack
  | name x, stack => .var nowhere x :: stack
  | assign x, value :: stack => .assign nowhere x value :: stack
  | step side op x, stack => .step nowhere side op x :: stack
  | unary op, operand :: stack => .unary nowhere op operand :: stack
  | binary op, right :: left :: stack => .binary nowhere op left right :: stack
  | call n, callee :: stack => .call nowhere callee (stack.take n).reverse :: stack.drop n
  | property x, object :: stack => .property nowhere object x :: stack
  | setProperty x, value :: object :: stack => .setProperty nowhere object x value :: stack
  | this, stack => .this nowhere :: stack
  | super x, stack => .super nowhere x :: stack
  | function x, stack => .lambda (.mk nowhere x [] []) :: stack
  | _, stack => stack

/-- Reads words from left to right. -/
def readWords (words : List PostfixWord) (stack : List Expr) : List Expr :=
  words.foldl (fun stack w ↦ w.apply stack) stack

/-- Words are read one after another. -/
theorem readWords_append (words words' : List PostfixWord) (stack : List Expr) :
    readWords (words ++ words') stack = readWords words' (readWords words stack) :=
  List.foldl_append

theorem readWords_singleton (w : PostfixWord) (stack : List Expr) :
    readWords [w] stack = w.apply stack := rfl

end PostfixWord

open PostfixWord

mutual

/-- The words of an expression are read as the expression. -/
theorem Expr.readWords_words (e : Expr) (stack : List Expr) :
    readWords e.words stack = e.bare :: stack := by
  match e with
  | .literal .. | .var .. | .step .. | .this _ | .super .. | .lambda _ => rfl
  | .group _ inner => exact inner.readWords_words stack
  | .assign _ _ value | .unary _ _ value | .property _ value _ =>
    rw [Expr.words, readWords_append, value.readWords_words]
    rfl
  | .binary _ _ left right | .setProperty _ left _ right =>
    rw [Expr.words, readWords_append, readWords_append, left.readWords_words,
      right.readWords_words]
    rfl
  | .call _ callee arguments =>
    rw [Expr.words, readWords_append, readWords_append, readWords_wordsOf,
      callee.readWords_words, readWords_singleton, apply]
    have hlength : (bareOf arguments).reverse.length = arguments.length := by
      rw [List.length_reverse, length_bareOf]
    rw [List.take_left' hlength, List.drop_left' hlength, List.reverse_reverse]
    rfl

/-- The words of several expressions are read as the expressions, the last of them first. -/
theorem readWords_wordsOf (es : List Expr) (stack : List Expr) :
    readWords (wordsOf es) stack = (bareOf es).reverse ++ stack := by
  match es with
  | [] => rfl
  | e :: es =>
    rw [wordsOf, readWords_append, e.readWords_words, readWords_wordsOf es, bareOf,
      List.reverse_cons, List.append_assoc]
    rfl

end

/-- The words of an expression tell it. -/
theorem Expr.bare_eq_of_words_eq {e f : Expr} (h : e.words = f.words) : e.bare = f.bare := by
  have he := e.readWords_words []
  rw [h, f.readWords_words] at he
  exact (List.cons.inj he).1.symm

/-! ### Words that are spelled alike -/

namespace PostfixWord

/-- How many values a word pushes more than it takes. -/
def surplus : PostfixWord → Int
  | literal _ | name _ | step .. | this | super _ | function _ => 1
  | assign _ | unary _ | property _ => 0
  | binary _ | setProperty _ => -1
  | call n => -n

/-- How many values the words push more than they take. -/
def surplusOf : List PostfixWord → Int
  | [] => 0
  | w :: ws => w.surplus + surplusOf ws

/-- What some words leave on the stack, and what others do, adds up. -/
theorem surplusOf_append (ws ws' : List PostfixWord) :
    surplusOf (ws ++ ws') = surplusOf ws + surplusOf ws' := by
  induction ws with
  | nil => exact (Int.zero_add _).symm
  | cons w ws ih =>
    rw [List.cons_append, surplusOf, surplusOf, ih, Int.add_assoc]

end PostfixWord

mutual

/-- An expression pushes one value more than it takes. -/
theorem Expr.surplus_words (e : Expr) : surplusOf e.words = 1 := by
  match e with
  | .literal .. | .var .. | .step .. | .this _ | .super .. | .lambda _ => rfl
  | .group _ inner => exact inner.surplus_words
  | .assign _ _ value | .unary _ _ value | .property _ value _ =>
    rw [Expr.words, surplusOf_append, value.surplus_words]
    rfl
  | .binary _ _ left right | .setProperty _ left _ right =>
    rw [Expr.words, surplusOf_append, surplusOf_append, left.surplus_words, right.surplus_words]
    rfl
  | .call _ callee arguments =>
    rw [Expr.words, surplusOf_append, surplusOf_append, surplus_wordsOf, callee.surplus_words,
      surplusOf, surplusOf, surplus]
    omega

theorem surplus_wordsOf (es : List Expr) : surplusOf (wordsOf es) = es.length := by
  match es with
  | [] => rfl
  | e :: es =>
    rw [wordsOf, surplusOf_append, e.surplus_words, surplus_wordsOf es, List.length_cons]
    omega

end

namespace PostfixWord

/-- The two words are spelled alike. -/
inductive Alike : PostfixWord → PostfixWord → Prop
  | refl (w : PostfixWord) : Alike w w
  | negName : Alike (name "neg") (unary .negate)
  | nameNeg : Alike (unary .negate) (name "neg")
  | infName {x : Float} (hx : x.isInf = true) : Alike (name "inf") (literal (.number x))
  | nameInf {x : Float} (hx : x.isInf = true) : Alike (literal (.number x)) (name "inf")

theorem Alike.symm {w w' : PostfixWord} (h : Alike w w') : Alike w' w := by
  cases h with
  | refl => exact .refl _
  | negName => exact .nameNeg
  | nameNeg => exact .negName
  | infName hx => exact .nameInf hx
  | nameInf hx => exact .infName hx

/-- A name `neg` is among the first words, and a negation among the others. -/
def MixNeg (ws ws' : List PostfixWord) : Prop := name "neg" ∈ ws ∧ unary .negate ∈ ws'

/-- A name `inf` is among the first words, and an infinite number among the others. -/
def MixInf (ws ws' : List PostfixWord) : Prop :=
  name "inf" ∈ ws ∧ ∃ x : Float, x.isInf = true ∧ literal (.number x) ∈ ws'

variable {w w' : PostfixWord} {ws ws' : List PostfixWord}

/-- Words that mix a name with a negation do so with others before them. -/
theorem MixNeg.cons (h : MixNeg ws ws') : MixNeg (w :: ws) (w' :: ws') :=
  ⟨List.mem_cons_of_mem _ h.1, List.mem_cons_of_mem _ h.2⟩

/-- Words that mix a name with an infinite number do so with others before them. -/
theorem MixInf.cons (h : MixInf ws ws') : MixInf (w :: ws) (w' :: ws') := by
  obtain ⟨hname, x, hx, hnumber⟩ := h
  exact ⟨List.mem_cons_of_mem _ hname, x, hx, List.mem_cons_of_mem _ hnumber⟩

/-- If no name stands for a negation, then only negations can stand for names, and each of them
pushes one value less than the name. -/
theorem surplusOf_le (h : List.Forall₂ Alike ws ws') (hneg : ¬ MixNeg ws ws')
    (hinf : ¬ MixInf ws ws') (hinf' : ¬ MixInf ws' ws) :
    surplusOf ws ≤ surplusOf ws' ∧ (surplusOf ws = surplusOf ws' → ws = ws') := by
  induction h with
  | nil => exact ⟨Int.le_refl _, fun _ ↦ rfl⟩
  | @cons w w' ws ws' hw _ ih =>
    obtain ⟨hle, heq⟩ := ih (fun h ↦ hneg h.cons) (fun h ↦ hinf h.cons) (fun h ↦ hinf' h.cons)
    rw [surplusOf, surplusOf]
    cases hw with
    | refl => exact ⟨Int.add_le_add_left hle _, fun h ↦ by rw [heq (Int.add_left_cancel h)]⟩
    | negName => exact absurd ⟨List.mem_cons_self, List.mem_cons_self⟩ hneg
    | nameNeg =>
      rw [surplus, surplus]
      exact ⟨by omega, fun h ↦ by omega⟩
    | infName hx => exact absurd ⟨List.mem_cons_self, _, hx, List.mem_cons_self⟩ hinf
    | nameInf hx => exact absurd ⟨List.mem_cons_self, _, hx, List.mem_cons_self⟩ hinf'

end PostfixWord

/-- The words of two expressions are the same if they are spelled alike, as long as in one of them
no name `neg` meets a negation, and between them no name `inf` meets an infinite number. -/
theorem Expr.words_eq_of_alike {e f : Expr} (h : List.Forall₂ Alike e.words f.words)
    (hneg : ¬ MixNeg e.words e.words) (hinf : ¬ MixInf e.words f.words)
    (hinf' : ¬ MixInf f.words e.words) : e.words = f.words := by
  have hsurplus : surplusOf e.words = surplusOf f.words :=
    e.surplus_words.trans f.surplus_words.symm
  by_cases hname : name "neg" ∈ e.words
  · -- then no negation is there that could stand for a name
    have hnegate : ¬ MixNeg f.words e.words := fun h ↦ hneg ⟨hname, h.2⟩
    have hflip : List.Forall₂ Alike f.words e.words := h.flip.imp fun _ _ h ↦ h.symm
    exact ((surplusOf_le hflip hnegate hinf' hinf).2 hsurplus.symm).symm
  · exact (surplusOf_le h (fun h ↦ hname h.1) hinf hinf').2 hsurplus

end LoxLang
