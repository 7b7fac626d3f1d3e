import LoxLang.Proofs.Decimals.Numbers
import LoxLang.Proofs.Postfix
import LoxLang.Proofs.Shapes

/-!
# The spelling of postfix notation

The text of an expression tells its words, up to those that are spelled alike
(`Expr.toPostfix_eq_iff`). The words are joined by spaces, and some hold spaces of their own: a
quoted string, an assigned variable with the equals sign behind it, and the place of a function.

So each word is seen as parts with a space between them (`PostfixWord.parts`). Where a part ends can
be told, as a quoted text ends at the first quote that is not escaped and no other part holds a
space (`PostfixWord.Delimited`). How the first part looks tells the kind of the word
(`PostfixWord.looks`), and within a kind the spelling tells the word (`PostfixWord.eq_of_looks`),
except for what looks like a name (`PostfixWord.alike_of_variable`).
-/

namespace LoxLang

open Shape

/-- The text is spelled like a name, and it is no keyword. -/
structure Identifier (x : String) : Prop where
  spelled : Spelled .word x.toList
  ofWord? : Mark.ofWord? x.toList = none

namespace Identifier

variable {x : String}

/-- A name begins with a letter, and continues with letters and digits. -/
theorem exists_cons (h : Identifier x) : ∃ c cs, x.toList = c :: cs ∧ startsWord c = true ∧
    ∀ d ∈ cs, continuesWord d = true := by
  obtain ⟨hspelled, -⟩ := h
  generalize x.toList = text at hspelled
  cases hspelled with
  | word hc hcs => exact ⟨_, _, rfl, hc, hcs⟩

theorem continuesWord (h : Identifier x) {c : Char} (hc : c ∈ x.toList) :
    continuesWord c = true := by
  obtain ⟨d, ds, hx, hd, hds⟩ := h.exists_cons
  rw [hx] at hc
  rcases List.mem_cons.1 hc with rfl | hc
  · exact Bool.or_eq_true_iff.2 (.inl hd)
  · exact hds c hc

/-- A name holds no character that does not continue a word. -/
theorem not_mem (h : Identifier x) {c : Char} (hc : Shape.continuesWord c = false) :
    c ∉ x.toList := fun hmem ↦ by
  rw [h.continuesWord hmem] at hc
  cases hc

end Identifier

namespace PostfixWord

/-- The word can come from a program. -/
def Written : PostfixWord → Prop
  | literal (.number x) => Decimal.Unsigned x
  | name x | assign x | step _ _ x | property x | setProperty x | super x => Identifier x
  | function x => x = FunDecl.anonymous
  | _ => True

/-- The text of a word, up to its first space. -/
def head : PostfixWord → List Char
  | literal value => value.postfixWord.toList
  | name x | assign x => x.toList
  | step .before op x => op.symbol.toList ++ x.toList
  | step .after op x => x.toList ++ op.symbol.toList
  | unary op => op.postfixWord.toList
  | binary op => op.symbol.toList
  | call n => ['c', 'a', 'l', 'l', '/'] ++ (toString n).toList
  | property x => '.' :: x.toList
  | setProperty x => '.' :: (x.toList ++ ['='])
  | this => ['t', 'h', 'i', 's']
  | super x => ['s', 'u', 'p', 'e', 'r', '.'] ++ x.toList
  | function _ => ['<', 'f', 'n']

/-- What follows the first space in the text of a word. -/
def more : PostfixWord → List (List Char)
  | assign _ => [['=']]
  | function x => [x.toList ++ ['>']]
  | _ => []

/-- The text of a word in parts, with a space between them. -/
def parts (w : PostfixWord) : List (List Char) := w.head :: w.more

end PostfixWord

/-! ### What the first part of a word shows -/

/-- What can be seen of a word at its first part. -/
inductive Look where
  | string | dotted | number
  | keyword (m : Mark)
  /-- Spelled like a name. -/
  | variable
  | super | call | stepped
  /-- Signs before letters. -/
  | prefixed
  | sign

/-- How a text looks. -/
def Look.of : List Char → Look
  | '"' :: _ => .string
  | '.' :: _ => .dotted
  | c :: cs =>
    if c.isDigit then .number
    else if startsWord c then
      match cs.dropWhile continuesWord with
      | [] => (Mark.ofWord? (c :: cs)).elim .variable .keyword
      | '.' :: _ => .super
      | '/' :: _ => .call
      | _ => .stepped
    else if cs.any startsWord then .prefixed else .sign
  | [] => .sign

namespace PostfixWord

/-- The words of each look. -/
inductive Looks : Look → PostfixWord → Prop
  | string (s : String) : Looks .string (literal (.string s))
  | property (x : String) : Looks .dotted (property x)
  | setProperty (x : String) : Looks .dotted (setProperty x)
  | number {x : Float} (hx : x.isInf = false) : Looks .number (literal (.number x))
  | nil : Looks (.keyword .nilWord) (literal .nil)
  | true : Looks (.keyword .trueWord) (literal (.bool true))
  | false : Looks (.keyword .falseWord) (literal (.bool false))
  | this : Looks (.keyword .thisWord) this
  | or : Looks (.keyword .orWord) (binary .or)
  | and : Looks (.keyword .andWord) (binary .and)
  | inf {x : Float} (hx : x.isInf = true) : Looks .variable (literal (.number x))
  | name (x : String) : Looks .variable (name x)
  | assign (x : String) : Looks .variable (assign x)
  | negate : Looks .variable (unary .negate)
  | super (x : String) : Looks .super (super x)
  | call (n : Nat) : Looks .call (call n)
  | after (op : StepOp) (x : String) : Looks .stepped (step .after op x)
  | before (op : StepOp) (x : String) : Looks .prefixed (step .before op x)
  | function (x : String) : Looks .prefixed (function x)
  | not : Looks .sign (unary .not)
  | binary (op : BinaryOp) : Looks .sign (binary op)

variable {w w' : PostfixWord} {ws ws' : List PostfixWord} {x : String}

/-- Behind the letters at the front stands what tells how the text looks. -/
theorem look_cons {c : Char} (hc : startsWord c = true) (cs : List Char) :
    Look.of (c :: cs) =
      match cs.dropWhile continuesWord with
      | [] => (Mark.ofWord? (c :: cs)).elim .variable .keyword
      | '.' :: _ => .super
      | '/' :: _ => .call
      | _ => .stepped := by
  have hdigit : c.isDigit = false :=
    eq_false_of_ne_true fun h ↦ by simp [startsWord_of_isDigit h] at hc
  unfold Look.of
  split
  · rename_i heq
    rw [(List.cons.inj heq).1] at hc
    exact absurd hc (by decide)
  · rename_i heq
    rw [(List.cons.inj heq).1] at hc
    exact absurd hc (by decide)
  · rename_i heq
    obtain ⟨rfl, rfl⟩ := List.cons.inj heq
    rw [hdigit, hc]
    rfl
  · rename_i heq
    cases heq

/-- What begins with a digit looks like a number. -/
theorem look_digit {c : Char} (hc : c.isDigit = true) (cs : List Char) :
    Look.of (c :: cs) = .number := by
  unfold Look.of
  split
  · rename_i heq
    rw [(List.cons.inj heq).1] at hc
    exact absurd hc (by decide)
  · rename_i heq
    rw [(List.cons.inj heq).1] at hc
    exact absurd hc (by decide)
  · rename_i heq
    obtain ⟨rfl, rfl⟩ := List.cons.inj heq
    rw [hc]
    rfl
  · rename_i heq
    cases heq

/-- A name looks like a variable. -/
theorem look_identifier (hx : Identifier x) : Look.of x.toList = .variable := by
  have hword := hx.ofWord?
  obtain ⟨c, cs, hlist, hc, hcs⟩ := hx.exists_cons
  rw [hlist] at hword ⊢
  rw [look_cons hc, List.dropWhile_eq_nil_iff.2 hcs, hword]
  rfl

/-- A name with a step sign behind it looks stepped. -/
theorem look_after (hx : Identifier x) (op : StepOp) :
    Look.of (x.toList ++ op.symbol.toList) = .stepped := by
  obtain ⟨c, cs, hlist, hc, hcs⟩ := hx.exists_cons
  rw [hlist, List.cons_append, look_cons hc, List.dropWhile_append_of_pos hcs]
  cases op <;> rfl

/-- A name with a step sign before it looks prefixed. -/
theorem look_before (hx : Identifier x) (op : StepOp) :
    Look.of (op.symbol.toList ++ x.toList) = .prefixed := by
  obtain ⟨c, cs, hlist, hc, -⟩ := hx.exists_cons
  have hany {d : Char} : (d :: c :: cs).any startsWord = true := by simp [hc]
  rw [hlist]
  cases op
  · exact if_pos hany
  · exact if_pos hany

/-- A numeral that is too large is spelled like a name. -/
theorem text_inf {x : Float} (hx : Decimal.Unsigned x) (hinf : x.isInf = true) :
    Decimal.ofFloat x = "inf" := by
  rw [Decimal.ofFloat_of_unsigned hx, if_pos hinf]

/-- A word is one of those that look as it does. -/
theorem looks (hw : w.Written) : Looks (Look.of w.head) w := by
  cases w with
  | literal value =>
    cases value with
    | nil => exact .nil
    | bool b =>
      cases b
      · exact .false
      · exact .true
    | number x =>
      cases hinf : x.isInf with
      | true =>
        rw [head, Literal.postfixWord, text_inf hw hinf]
        exact .inf hinf
      | false =>
        obtain ⟨q, hq, -⟩ := Decimal.exists_reads_ofFloat hw hinf
        obtain ⟨c, cs, hcs, hc⟩ := hq.digit
        rw [head, Literal.postfixWord, hcs, look_digit hc]
        exact .number hinf
    | string s =>
      rw [head, Literal.postfixWord, Text.quoted, String.toList_ofList]
      exact .string s
  | name x =>
    rw [head, look_identifier hw]
    exact .name x
  | assign x =>
    rw [head, look_identifier hw]
    exact .assign x
  | step side op x =>
    cases side with
    | before =>
      rw [head, look_before hw]
      exact .before op x
    | after =>
      rw [head, look_after hw]
      exact .after op x
  | unary op =>
    cases op
    · exact .negate
    · exact .not
  | binary op =>
    cases op
    · exact .or
    · exact .and
    all_goals exact .binary _
  | call n => exact .call n
  | property x => exact .property x
  | setProperty x => exact .setProperty x
  | this => exact .this
  | super x => exact .super x
  | function x => exact .function x

/-! ### Words with the same text -/

/-- Binary operators are told apart by their symbols. -/
theorem BinaryOp.symbol_inj {op op' : BinaryOp} (h : op.symbol = op'.symbol) : op = op' := by
  revert h
  cases op <;> cases op' <;> decide

/-- No binary operator has the symbol of negation. -/
theorem BinaryOp.symbol_ne (op : BinaryOp) : op.symbol ≠ "!" := by
  cases op <;> decide

theorem StepOp.symbol_inj {op op' : StepOp} (h : op.symbol = op'.symbol) : op = op' := by
  revert h
  cases op <;> cases op' <;> decide

/-- The letters of a name end where the sign behind them begins. -/
theorem after_inj {y : String} {op op' : StepOp} (hx : Identifier x) (hy : Identifier y)
    (h : x.toList ++ op.symbol.toList = y.toList ++ op'.symbol.toList) : x = y ∧ op = op' := by
  have hsign (op : StepOp) : ∀ c ∈ op.symbol.toList.head?, continuesWord c = false := by
    cases op <;> rintro c ⟨⟩ <;> rfl
  obtain ⟨hname, hop⟩ := Text.eq_of_append_eq_append (fun _ ↦ hx.continuesWord)
    (fun _ ↦ hy.continuesWord) (hsign op) (hsign op') h
  exact ⟨String.toList_inj.1 hname, StepOp.symbol_inj (String.toList_inj.1 hop)⟩

/-- Both signs are equally long. -/
theorem before_inj {y : String} {op op' : StepOp}
    (h : op.symbol.toList ++ x.toList = op'.symbol.toList ++ y.toList) : x = y ∧ op = op' := by
  have hlength : op.symbol.toList.length = op'.symbol.toList.length := by
    cases op <;> cases op' <;> rfl
  obtain ⟨hop, hname⟩ := List.append_inj h hlength
  exact ⟨String.toList_inj.1 hname, StepOp.symbol_inj (String.toList_inj.1 hop)⟩

/-- A name with a step sign before it is not the word of a function. -/
theorem before_ne_function (op : StepOp) (x : String) :
    op.symbol.toList ++ x.toList ≠ ['<', 'f', 'n'] := by
  cases op <;> exact fun h ↦ absurd (List.cons.inj h).1 (by decide)

/-- Numbers of arguments are told apart by their digits. -/
theorem toString_inj {m n : Nat} (h : (toString m).toList = (toString n).toList) : m = n := by
  have hvalue := congrArg (Nat.ofDigitChars 10 · 0) h
  simpa only [Nat.toString_eq_repr, Nat.toList_repr, Nat.ofDigitChars_ten_toDigits] using hvalue

/-- Only what looks like a name can be spelled alike without being the same. -/
theorem eq_of_looks {look : Look} (hw : w.Written) (hw' : w'.Written) (hlook : look ≠ .variable)
    (hlooks : Looks look w) (hlooks' : Looks look w') (h : w.head = w'.head) : w = w' := by
  cases hlooks with
  | string s =>
    cases hlooks' with
    | string s' =>
      obtain ⟨rfl, -⟩ := Text.quoted_append_inj (congrArg (· ++ []) h)
      rfl
  | property x =>
    cases hlooks' with
    | property y =>
      obtain rfl := String.toList_inj.1 (List.cons.inj h).2
      rfl
    | setProperty y =>
      have hmem : '=' ∈ x.toList := by simp [(List.cons.inj h).2]
      exact absurd hmem (Identifier.not_mem hw rfl)
  | setProperty x =>
    cases hlooks' with
    | property y =>
      have hmem : '=' ∈ y.toList := by simp [← (List.cons.inj h).2]
      exact absurd hmem (Identifier.not_mem hw' rfl)
    | setProperty y =>
      obtain rfl := String.toList_inj.1 (List.append_cancel_right (List.cons.inj h).2)
      rfl
  | number hx =>
    cases hlooks' with
    | number hy =>
      obtain rfl := Decimal.ofFloat_inj hw hw' (String.toList_inj.1 h)
      rfl
  | nil | true | false | this | or | and =>
    cases hlooks'
    rfl
  | inf | name | assign | negate => exact absurd rfl hlook
  | super x =>
    cases hlooks' with
    | super y =>
      obtain rfl := String.toList_inj.1 (List.append_cancel_left h)
      rfl
  | call n =>
    cases hlooks' with
    | call m =>
      obtain rfl := toString_inj (List.append_cancel_left h)
      rfl
  | after op x =>
    cases hlooks' with
    | after op' y =>
      obtain ⟨rfl, rfl⟩ := after_inj hw hw' h
      rfl
  | before op x =>
    cases hlooks' with
    | before op' y =>
      obtain ⟨rfl, rfl⟩ := before_inj h
      rfl
    | function y => exact absurd h (before_ne_function op x)
  | function x =>
    obtain rfl := hw
    cases hlooks' with
    | before op y => exact absurd h.symm (before_ne_function op y)
    | function y =>
      obtain rfl := hw'
      rfl
  | not =>
    cases hlooks' with
    | not => rfl
    | binary op => exact absurd (String.toList_inj.1 h).symm (BinaryOp.symbol_ne op)
  | binary op =>
    cases hlooks' with
    | not => exact absurd (String.toList_inj.1 h) (BinaryOp.symbol_ne op)
    | binary op' => rw [BinaryOp.symbol_inj (String.toList_inj.1 h)]

/-- What looks like a name is spelled alike if it has the same text and nothing is assigned. -/
theorem alike_of_variable {rest rest' : List (List Char)} (hw : w.Written) (hw' : w'.Written)
    (hlooks : Looks .variable w) (hlooks' : Looks .variable w') (hrest : rest.head? ≠ some ['='])
    (hrest' : rest'.head? ≠ some ['=']) (hhead : w.head = w'.head)
    (hmore : w.more ++ rest = w'.more ++ rest') : Alike w w' := by
  have hassign {r r' : List (List Char)} (h : r = ['='] :: r') : r.head? = some ['='] := by
    rw [h]
    rfl
  cases hlooks with
  | inf hx =>
    cases hlooks' with
    | inf hy =>
      obtain rfl := Decimal.ofFloat_inj hw hw' (String.toList_inj.1 hhead)
      exact .refl _
    | name y =>
      obtain rfl := (String.toList_inj.1 hhead).symm.trans (text_inf hw hx)
      exact .nameInf hx
    | assign y => exact absurd (hassign hmore) hrest
    | negate => exact absurd ((text_inf hw hx).symm.trans (String.toList_inj.1 hhead)) (by decide)
  | name x =>
    cases hlooks' with
    | inf hy =>
      obtain rfl := (String.toList_inj.1 hhead).trans (text_inf hw' hy)
      exact .infName hy
    | name y =>
      obtain rfl := String.toList_inj.1 hhead
      exact .refl _
    | assign y => exact absurd (hassign hmore) hrest
    | negate =>
      obtain rfl : x = "neg" := String.toList_inj.1 hhead
      exact .negName
  | assign x =>
    cases hlooks' with
    | assign y =>
      obtain rfl := String.toList_inj.1 hhead
      exact .refl _
    | _ => exact absurd (hassign hmore.symm) hrest'
  | negate =>
    cases hlooks' with
    | inf hy => exact absurd ((String.toList_inj.1 hhead).trans (text_inf hw' hy)) (by decide)
    | name y =>
      obtain rfl : "neg" = y := String.toList_inj.1 hhead
      exact .nameNeg
    | assign y => exact absurd (hassign hmore) hrest
    | negate => exact .refl _

theorem Alike.more_eq (h : Alike w w') : w.more = w'.more := by
  cases h <;> rfl

/-- Words with the same text are spelled alike, and the same follows them. -/
theorem alike_of_parts {rest rest' : List (List Char)} (hw : w.Written) (hw' : w'.Written)
    (hrest : rest.head? ≠ some ['=']) (hrest' : rest'.head? ≠ some ['='])
    (h : w.parts ++ rest = w'.parts ++ rest') : Alike w w' ∧ rest = rest' := by
  have hhead : w.head = w'.head := (List.cons.inj h).1
  have hmore : w.more ++ rest = w'.more ++ rest' := (List.cons.inj h).2
  have hlooks := looks hw
  have hlooks' := looks hw'
  rw [← hhead] at hlooks'
  have halike : Alike w w' := by
    by_cases hlook : Look.of w.head = .variable
    · rw [hlook] at hlooks hlooks'
      exact alike_of_variable hw hw' hlooks hlooks' hrest hrest' hhead hmore
    · rw [eq_of_looks hw hw' hlook hlooks hlooks' hhead]
      exact .refl _
  rw [← halike.more_eq] at hmore
  exact ⟨halike, List.append_cancel_left hmore⟩

/-! ### Parts between spaces -/

/-- Where the text ends can be told if a space follows. -/
def Delimited (cs : List Char) : Prop :=
  (∃ s, cs = (Text.quoted s).toList) ∨ (' ' ∉ cs ∧ cs.head? ≠ some '"')

/-- What does not begin with a quotation mark is no quoted text. -/
theorem append_ne_quoted {s : String} {cs rest rest' : List Char} (hcs : cs.head? ≠ some '"')
    (hrest : ∀ c ∈ rest.head?, c = ' ') : cs ++ rest ≠ (Text.quoted s).toList ++ rest' := by
  rw [Text.quoted, String.toList_ofList]
  intro h
  cases cs with
  | nil =>
    rw [List.nil_append] at h
    exact absurd (hrest '"' (h ▸ rfl)) (by decide)
  | cons c cs => exact hcs (congrArg some (List.cons.inj h).1)

/-- Of two texts at the same place that end before a space, each is the other. -/
theorem Delimited.eq_of_append {cs ds rest rest' : List Char} (hcs : Delimited cs)
    (hds : Delimited ds) (hrest : ∀ c ∈ rest.head?, c = ' ') (hrest' : ∀ c ∈ rest'.head?, c = ' ')
    (h : cs ++ rest = ds ++ rest') : cs = ds ∧ rest = rest' := by
  have hspace {cs : List Char} (hcs : ' ' ∉ cs) : ∀ c ∈ cs, decide (c ≠ ' ') = true :=
    fun c hc ↦ decide_eq_true (ne_of_mem_of_not_mem hc hcs)
  have hend {rest : List Char} (hrest : ∀ c ∈ rest.head?, c = ' ') :
      ∀ c ∈ rest.head?, decide (c ≠ ' ') = false :=
    fun c hc ↦ decide_eq_false (not_not.2 (hrest c hc))
  rcases hcs with ⟨s, rfl⟩ | ⟨hcs, hhead⟩
  · rcases hds with ⟨t, rfl⟩ | ⟨-, hhead⟩
    · obtain ⟨rfl, hrest⟩ := Text.quoted_append_inj h
      exact ⟨rfl, hrest⟩
    · exact absurd h.symm (append_ne_quoted hhead hrest')
  · rcases hds with ⟨t, rfl⟩ | ⟨hds, -⟩
    · exact absurd h (append_ne_quoted hhead hrest)
    · exact Text.eq_of_append_eq_append (hspace hcs) (hspace hds) (hend hrest) (hend hrest') h

/-- The text of several parts, with a space before each. -/
def spaced (parts : List (List Char)) : List Char := parts.flatMap (' ' :: ·)

/-- The text of several parts begins with a space. -/
theorem head?_spaced (parts : List (List Char)) : ∀ c ∈ (spaced parts).head?, c = ' ' := by
  cases parts with
  | nil => nofun
  | cons cs parts =>
    rintro c ⟨⟩
    rfl

/-- Delimited parts are told by their text. -/
theorem eq_of_spaced_eq {parts parts' : List (List Char)} (hparts : ∀ cs ∈ parts, Delimited cs)
    (hparts' : ∀ cs ∈ parts', Delimited cs) (h : spaced parts = spaced parts') :
    parts = parts' := by
  induction parts generalizing parts' with
  | nil =>
    cases parts' with
    | nil => rfl
    | cons => cases h
  | cons cs parts ih =>
    cases parts' with
    | nil => cases h
    | cons ds parts' =>
      obtain ⟨hcs, hfront⟩ := List.forall_mem_cons.1 hparts
      obtain ⟨hds, hfront'⟩ := List.forall_mem_cons.1 hparts'
      have htail : cs ++ spaced parts = ds ++ spaced parts' := (List.cons.inj h).2
      obtain ⟨rfl, hrest⟩ := hcs.eq_of_append hds (head?_spaced parts) (head?_spaced parts') htail
      rw [ih hfront hfront' hrest]

/-- Where a name ends can be told, with or without a sign at its side. -/
theorem delimited_identifier (cs ds : List Char) (hx : Identifier x) (hcs : ' ' ∉ cs)
    (hhead : cs.head? ≠ some '"') (hds : ' ' ∉ ds) : Delimited (cs ++ x.toList ++ ds) := by
  have hspace : ' ' ∉ x.toList := hx.not_mem rfl
  refine .inr ⟨by simp [hcs, hds, hspace], ?_⟩
  obtain ⟨c, ds, hlist, hc, -⟩ := hx.exists_cons
  cases cs with
  | nil =>
    rw [hlist]
    rintro ⟨⟩
    exact absurd hc (by decide)
  | cons d cs => exact hhead

/-- The text of a number that is not negative holds no space. -/
theorem delimited_ofFloat {x : Float} (hx : Decimal.Unsigned x) :
    Delimited (Decimal.ofFloat x).toList := by
  cases hinf : x.isInf with
  | true =>
    rw [text_inf hx hinf]
    exact .inr (by decide)
  | false =>
    obtain ⟨q, hq, -⟩ := Decimal.exists_reads_ofFloat hx hinf
    obtain ⟨c, ds, hlist, hc⟩ := hq.digit
    refine .inr ⟨fun h ↦ ?_, ?_⟩
    · exact (hq.mem h).elim (by decide) (by decide)
    · rw [hlist]
      rintro ⟨⟩
      exact absurd hc (by decide)

/-- Where the first part of a word ends can be told. -/
theorem delimited_head (hw : w.Written) : Delimited w.head := by
  cases w with
  | literal value =>
    cases value with
    | nil => exact .inr (by decide)
    | bool b => cases b <;> exact .inr (by decide)
    | number x => exact delimited_ofFloat hw
    | string s => exact .inl ⟨s, rfl⟩
  | name x | assign x =>
    simpa [head] using delimited_identifier [] [] hw (by simp) (by simp) (by simp)
  | step side op x =>
    have hop : ' ' ∉ op.symbol.toList ∧ op.symbol.toList.head? ≠ some '"' := by
      cases op <;> decide
    cases side with
    | before =>
      simpa [head] using delimited_identifier op.symbol.toList [] hw hop.1 hop.2 (by simp)
    | after =>
      simpa [head] using delimited_identifier [] op.symbol.toList hw (by simp) (by simp) hop.1
  | unary op => cases op <;> exact .inr (by decide)
  | binary op => cases op <;> exact .inr (by decide)
  | call n =>
    refine .inr ⟨fun h ↦ ?_, nofun⟩
    rcases List.mem_append.1 h with h | h
    · revert h
      decide
    · rw [Nat.toString_eq_repr, Nat.toList_repr] at h
      exact absurd (Nat.isDigit_of_mem_toDigits (by decide) (by decide) h) (by decide)
  | property x =>
    simpa [head] using
      delimited_identifier ['.'] [] hw (by decide) (by decide) (by simp)
  | setProperty x =>
    exact delimited_identifier ['.'] ['='] hw (by decide) (by decide) (by decide)
  | this => exact .inr (by decide)
  | super x =>
    simpa [head] using
      delimited_identifier ['s', 'u', 'p', 'e', 'r', '.'] [] hw (by decide) (by decide) (by simp)
  | function x => exact .inr ⟨(by decide : ' ' ∉ ['<', 'f', 'n']), nofun⟩

/-- Where each part of a word ends can be told. -/
theorem delimited_parts (hw : w.Written) : ∀ cs ∈ w.parts, Delimited cs := by
  refine List.forall_mem_cons.2 ⟨delimited_head hw, ?_⟩
  cases w with
  | assign x => exact List.forall_mem_singleton.2 (.inr (by decide))
  | function x =>
    obtain rfl := hw
    exact List.forall_mem_singleton.2 (.inr (by decide))
  | _ => nofun

/-- No word begins with an equals sign alone. -/
theorem head_ne (hw : w.Written) : w.head ≠ ['='] := by
  intro h
  have hlooks := looks hw
  rw [h] at hlooks
  have hsign : Look.of ['='] = .sign := rfl
  rw [hsign] at hlooks
  cases hlooks with
  | not => exact absurd h (by decide)
  | binary op =>
    revert h
    cases op <;> decide

/-- No words begin with an equals sign alone. -/
theorem head?_parts_ne (hws : ∀ w ∈ ws, w.Written) : (ws.flatMap parts).head? ≠ some ['='] := by
  cases ws with
  | nil => nofun
  | cons w ws =>
    rintro h
    exact head_ne (hws w List.mem_cons_self) (Option.some.inj h)

/-- Words that are written alike with spaces between them are spelled alike. -/
theorem alike_of_flatMap_parts (hws : ∀ w ∈ ws, w.Written)
    (hws' : ∀ w ∈ ws', w.Written) (h : ws.flatMap parts = ws'.flatMap parts) :
    List.Forall₂ Alike ws ws' := by
  induction ws generalizing ws' with
  | nil =>
    cases ws' with
    | nil => exact .nil
    | cons w' ws' => cases h
  | cons w ws ih =>
    cases ws' with
    | nil => cases h
    | cons w' ws' =>
      obtain ⟨hw, hws⟩ := List.forall_mem_cons.1 hws
      obtain ⟨hw', hws'⟩ := List.forall_mem_cons.1 hws'
      rw [List.flatMap_cons, List.flatMap_cons] at h
      obtain ⟨halike, hrest⟩ := alike_of_parts hw hw' (head?_parts_ne hws) (head?_parts_ne hws') h
      exact .cons halike (ih hws hws' hrest)

end PostfixWord

/-! ### The text of an expression -/

open PostfixWord

theorem PostfixWord.spaced_flatMap_append (ws ws' : List PostfixWord) :
    spaced ((ws ++ ws').flatMap parts) =
      spaced (ws.flatMap parts) ++ spaced (ws'.flatMap parts) := by
  rw [List.flatMap_append, spaced, List.flatMap_append]
  rfl

/-- The texts of words as they are joined, with a space before each. -/
def joined (texts : List String) : List Char := spaced (texts.map String.toList)

theorem joined_append (texts texts' : List String) :
    joined (texts ++ texts') = joined texts ++ joined texts' := by
  rw [joined, List.map_append, spaced, List.flatMap_append]
  rfl

theorem joined_step (side : Side) (op : StepOp) (x : String) (span : Span) :
    joined (Expr.step span side op x).postfixWords = spaced (PostfixWord.step side op x).parts := by
  cases side <;> simp [Expr.postfixWords, joined, spaced, parts, head, more]

/-- A function is one word, with its name in it. -/
theorem joined_lambda (f : FunDecl) :
    joined (Expr.lambda f).postfixWords = spaced (PostfixWord.function f.name).parts := by
  simp only [Expr.postfixWords, joined, spaced, parts, head, more, List.map_cons, List.map_nil,
    String.toList_append]
  rfl

theorem joined_call (n : Nat) : joined [s!"call/{n}"] = spaced (PostfixWord.call n).parts := by
  simp only [joined, spaced, parts, head, more, List.map_cons, List.map_nil, String.toList_append]
  rfl

mutual

/-- The words of an expression have the texts that are joined. -/
theorem Expr.joined_postfixWords (e : Expr) :
    joined e.postfixWords = spaced (e.words.flatMap parts) := by
  match e with
  | .literal .. | .var .. | .this _ => rfl
  | .step _ side op x => exact joined_step side op x _
  | .super _ x => simp [Expr.postfixWords, Expr.words, joined, spaced, parts, head, more]
  | .lambda f => exact joined_lambda f
  | .group _ inner => exact inner.joined_postfixWords
  | .assign _ _ value | .unary _ _ value =>
    rw [Expr.words, Expr.postfixWords, joined_append, spaced_flatMap_append,
      value.joined_postfixWords]
    rfl
  | .property _ object x =>
    rw [Expr.words, Expr.postfixWords, joined_append, spaced_flatMap_append,
      object.joined_postfixWords]
    simp [joined, spaced, parts, head, more]
  | .binary _ op left right =>
    rw [Expr.words, Expr.postfixWords, joined_append, joined_append, spaced_flatMap_append,
      spaced_flatMap_append, left.joined_postfixWords, right.joined_postfixWords]
    rfl
  | .setProperty _ object x value =>
    rw [Expr.words, Expr.postfixWords, joined_append, joined_append, spaced_flatMap_append,
      spaced_flatMap_append, object.joined_postfixWords, value.joined_postfixWords]
    simp [joined, spaced, parts, head, more]
  | .call _ callee arguments =>
    rw [Expr.words, Expr.postfixWords, joined_append, joined_append, spaced_flatMap_append,
      spaced_flatMap_append, joined_postfixWordsOf, callee.joined_postfixWords, joined_call]
    rfl

/-- The words of several expressions have the texts that are joined. -/
theorem joined_postfixWordsOf (es : List Expr) :
    joined (postfixWordsOf es) = spaced ((wordsOf es).flatMap parts) := by
  match es with
  | [] => rfl
  | e :: es =>
    rw [wordsOf, postfixWordsOf, joined_append, spaced_flatMap_append, e.joined_postfixWords,
      joined_postfixWordsOf es]

end

/-- The joined texts are those with spaces between them, behind a space. -/
theorem joined_eq {texts : List String} (h : texts ≠ []) :
    joined texts = ' ' :: (" ".intercalate texts).toList := by
  induction texts with
  | nil => exact absurd rfl h
  | cons text texts ih =>
    cases texts with
    | nil => simp [joined, spaced]
    | cons text' texts =>
      rw [String.intercalate_cons_cons, String.toList_append, String.toList_append,
        List.append_assoc]
      have hjoined := ih (List.cons_ne_nil _ _)
      exact congrArg (' ' :: text.toList ++ ·) hjoined

/-- Every expression has a word. -/
theorem Expr.postfixWords_ne_nil (e : Expr) : e.postfixWords ≠ [] := by
  intro h
  have hjoined := e.joined_postfixWords
  have hread := e.readWords_words []
  rw [h] at hjoined
  cases hwords : e.words with
  | nil => rw [hwords] at hread; cases hread
  | cons w ws => rw [hwords] at hjoined; cases hjoined

/-- Words that are spelled alike have the same text. -/
theorem PostfixWord.Alike.parts_eq {w w' : PostfixWord} (h : Alike w w') (hw : w.Written)
    (hw' : w'.Written) : w.parts = w'.parts := by
  cases h with
  | refl => rfl
  | negName | nameNeg => rfl
  | infName hx =>
    have htext := text_inf hw' hx
    rw [parts, parts, head, head, Literal.postfixWord, htext]
    rfl
  | nameInf hx =>
    have htext := text_inf hw hx
    rw [parts, parts, head, head, Literal.postfixWord, htext]
    rfl

/-- Words that are spelled alike one by one have the same text. -/
theorem PostfixWord.flatMap_parts_eq {ws ws' : List PostfixWord} (hws : ∀ w ∈ ws, w.Written)
    (hws' : ∀ w ∈ ws', w.Written) (h : List.Forall₂ Alike ws ws') :
    ws.flatMap parts = ws'.flatMap parts := by
  induction h with
  | nil => rfl
  | cons hhead _ ih =>
    obtain ⟨hw, hws⟩ := List.forall_mem_cons.1 hws
    obtain ⟨hw', hws'⟩ := List.forall_mem_cons.1 hws'
    rw [List.flatMap_cons, List.flatMap_cons, hhead.parts_eq hw hw', ih hws hws']

/-- Two expressions have the same text exactly if their words are spelled alike. -/
theorem Expr.toPostfix_eq_iff {e f : Expr} (he : ∀ w ∈ e.words, w.Written)
    (hf : ∀ w ∈ f.words, w.Written) :
    e.toPostfix = f.toPostfix ↔ List.Forall₂ Alike e.words f.words := by
  have htext (e : Expr) : spaced (e.words.flatMap parts) = ' ' :: e.toPostfix.toList := by
    rw [← e.joined_postfixWords, joined_eq e.postfixWords_ne_nil]
    rfl
  have hparts {e : Expr} (he : ∀ w ∈ e.words, w.Written) :
      ∀ cs ∈ e.words.flatMap parts, Delimited cs := by
    intro cs hcs
    obtain ⟨w, hw, hcs⟩ := List.mem_flatMap.1 hcs
    exact delimited_parts (he w hw) cs hcs
  constructor
  · intro h
    have hspaced : spaced (e.words.flatMap parts) = spaced (f.words.flatMap parts) := by
      rw [htext, htext, h]
    exact alike_of_flatMap_parts he hf (eq_of_spaced_eq (hparts he) (hparts hf) hspaced)
  · intro h
    have hsame := flatMap_parts_eq he hf h
    have hlist := (htext e).symm.trans ((congrArg spaced hsame).trans (htext f))
    exact String.toList_inj.1 (List.cons.inj hlist).2

end LoxLang
