import LoxLang.Proofs.Layout
import LoxLang.Proofs.Nodes

/-!
# Scanning a part of a text

Tokens that stand next to one another in a text are scanned as well from the part of the text that
they stand in, alone or with a semicolon behind it (`Lexeme.exists_slice_of_scan`). Where the part
ends its last lexeme does not get longer, because the longest lexeme at a place is still the longest
if the text ends earlier (`Longest.cut`). Nor does a semicolon make it longer: only a comment goes
on with a semicolon, and a comment is no token (`Longest.before_semicolon`).
-/

namespace LoxLang

namespace Shape

variable {shape : Shape} {cs : List Char}

/-- What ends in a semicolon is the semicolon alone or a comment, which is one without it too. -/
theorem Spelled.of_semicolon (h : Spelled shape (cs ++ [';'])) : cs = [] ∨ Spelled blank cs := by
  have hmem : ';' ∈ cs ++ [';'] := by simp
  have hlast : (cs ++ [';']).getLast? = some ';' := List.getLast?_concat
  generalize htext : cs ++ [';'] = text at h hmem hlast
  cases h with
  | sign hsign =>
    have halone : ∀ o ∈ signs, o.1.getLast? = some ';' → o.1 = [';'] := by decide
    have hcs : cs ++ [';'] = [] ++ [';'] := htext.trans (halone _ hsign hlast)
    exact .inl (List.append_cancel_right hcs)
  | word hc hcs =>
    rcases List.mem_cons.1 hmem with rfl | hmem
    · cases hc
    · cases hcs _ hmem
  | string =>
    rw [← List.cons_append, List.getLast?_concat] at hlast
    cases hlast
  | whole hds => cases hds.2 _ hmem
  | decimal hds hes =>
    rcases List.mem_append.1 hmem with hmem | hmem
    · cases hds.2 _ hmem
    · rcases List.mem_cons.1 hmem with hmem | hmem
      · cases hmem
      · cases hes.2 _ hmem
  | space _ hspace => cases hspace _ hmem
  | @comment more hmore =>
    rcases cs with - | ⟨c, - | ⟨d, cs⟩⟩
    · cases htext
    · cases htext
    · obtain ⟨rfl, rfl, rfl⟩ : c = '/' ∧ d = '/' ∧ cs ++ [';'] = more := by simpa using htext
      exact .inr (.comment fun hbreak ↦ hmore (List.mem_append_left _ hbreak))

end Shape

namespace Lexeme

open Shape Text

variable {offset : Nat} {shape : Shape} {cs text rest more : List Char} {blanks : List Span}
  {pre seg post : List Lexeme} {x : Lexeme}

/-! ### The longest lexeme at a place -/

/-- A text is a lexeme of one shape only. -/
theorem eq_of_spelled {other : Shape} (h : Spelled shape text) (h' : Spelled other text) :
    shape = other := by
  obtain ⟨c, cs, rfl⟩ := List.exists_cons_of_ne_nil h.ne_nil
  exact congrArg Prod.fst (h.longest_eq.symm.trans h'.longest_eq)

/-- The longest lexeme is what is cut off. -/
theorem Longest.longest_eq {c : Char} (h : Longest shape (c :: cs) rest) :
    longest c (cs ++ rest) = (shape, cs.length) := by
  obtain ⟨hknown, hle, -⟩ := h.spelled.le_longest rest
  have hspelled := (longest_isLongest hknown).spelled
  have hfront : c :: (cs ++ rest).take (longest c (cs ++ rest)).2 <+: c :: cs ++ rest :=
    List.cons_prefix_cons.2 ⟨rfl, List.take_prefix _ _⟩
  have hge := h.length_le hspelled hfront
  rw [List.length_cons, List.length_cons, List.length_take_of_le (longest_le _ _)] at hge
  have hlength : (longest c (cs ++ rest)).2 = cs.length := by omega
  rw [hlength, List.take_left] at hspelled
  exact Prod.ext (eq_of_spelled hspelled h.spelled) hlength

/-- What is scanned after the longest lexeme. -/
theorem Longest.scan_eq (h : Longest shape text rest) (offset : Nat) :
    scan offset (text ++ rest) = ((shape.token? text).map (place offset text)).toList ++
      scan (offset + byteLength text) rest := by
  obtain ⟨c, cs, rfl⟩ := List.exists_cons_of_ne_nil h.spelled.ne_nil
  rw [List.cons_append, scan_cons, h.longest_eq, List.take_left, List.drop_left]
  rfl

/-- The longest lexeme is the longest also if the text ends earlier. -/
theorem Longest.cut (h : Longest shape text (rest ++ more)) : Longest shape text rest where
  spelled := h.spelled
  length_le hlonger hfront := h.length_le hlonger <| hfront.trans <| by
    rw [← List.append_assoc]
    exact List.prefix_append ..

/-- The longest lexeme is the longest also if the text ends earlier and a semicolon stands there,
unless it is a comment that the semicolon would belong to. -/
theorem Longest.before_semicolon (h : Longest shape text (rest ++ more))
    (hcomment : rest = [] → shape ≠ .blank) : Longest shape text (rest ++ [';']) where
  spelled := h.spelled
  length_le {other longer} hlonger hfront := by
    rw [← List.append_assoc, List.prefix_concat_iff] at hfront
    rcases hfront with rfl | hfront
    · rcases hlonger.of_semicolon with hnil | hblank
      · exact absurd (List.append_eq_nil_iff.1 hnil).1 h.spelled.ne_nil
      · have hle := h.cut.length_le hblank List.prefix_rfl
        rw [List.length_append] at hle
        obtain rfl : rest = [] := List.length_eq_zero_iff.1 (by omega)
        rw [List.append_nil] at hblank
        exact absurd (eq_of_spelled h.spelled hblank) (hcomment rfl)
    · exact h.cut.length_le hlonger hfront

/-- What may stand behind a part of a text: nothing, or a semicolon. -/
def Closing (tail : List Char) : Prop := tail = [] ∨ tail = [';']

theorem Longest.before_closing {tail : List Char} (h : Longest shape text (rest ++ more))
    (htail : Closing tail) (hcomment : rest = [] → shape ≠ .blank) :
    Longest shape text (rest ++ tail) := by
  rcases htail with rfl | rfl
  · rw [List.append_nil]
    exact h.cut
  · exact h.before_semicolon hcomment

/-! ### Parts of a text -/

/-- Where a lexeme of a text starts, what is left of the text is cut into it and those behind it. -/
theorem Cut.exists_front (h : Cut offset cs blanks (pre ++ x :: post)) :
    ∃ front rest later, cs = front ++ rest ∧ offset + byteLength front = x.span.start ∧
      Cut x.span.start rest later (x :: post) := by
  generalize hxs : pre ++ x :: post = xs at h
  induction h generalizing pre with
  | nil => simp at hxs
  | @blank offset text rest blanks xs hlongest _ ih =>
    obtain ⟨front, rest, later, rfl, hstart, hcut⟩ := ih hxs
    refine ⟨text ++ front, rest, later, (List.append_assoc ..).symm, ?_, hcut⟩
    rw [byteLength_append, ← Nat.add_assoc, hstart]
  | @known offset shape text rest t blanks xs hlongest ht hrest ih =>
    cases pre with
    | nil =>
      obtain ⟨rfl, rfl⟩ := List.cons.inj hxs
      exact ⟨[], text ++ rest, blanks, rfl, rfl, .known hlongest ht hrest⟩
    | cons y pre =>
      obtain ⟨front, rest, later, rfl, hstart, hcut⟩ := ih (List.cons.inj hxs).2
      refine ⟨text ++ front, rest, later, (List.append_assoc ..).symm, ?_, hcut⟩
      rw [byteLength_append, ← Nat.add_assoc, hstart]
  | @stray offset c rest blanks xs hbarren hc hrest ih =>
    cases pre with
    | nil =>
      obtain ⟨rfl, rfl⟩ := List.cons.inj hxs
      exact ⟨[], c :: rest, blanks, rfl, rfl, .stray hbarren hc hrest⟩
    | cons y pre =>
      obtain ⟨front, rest, later, rfl, hstart, hcut⟩ := ih (List.cons.inj hxs).2
      refine ⟨c :: front, rest, later, rfl, ?_, hcut⟩
      rw [← List.singleton_append, byteLength_append, ← Nat.add_assoc, hstart]
  | @unclosed offset cs hcs =>
    cases pre with
    | nil =>
      obtain ⟨rfl, rfl⟩ := List.cons.inj hxs
      exact ⟨[], '"' :: cs, [], rfl, rfl, .unclosed hcs⟩
    | cons y pre => simp at hxs

/-- The part of a text up to the end of some of its first tokens is scanned as these tokens. -/
theorem Cut.exists_part (h : Cut offset cs blanks (seg ++ post)) (hseg : seg ≠ [])
    (hknown : ∀ y ∈ seg, y.token.isUnknown = false) :
    ∃ text rest, cs = text ++ rest ∧ text ≠ [] ∧
      seg.getLast?.map (·.span.stop) = some (offset + byteLength text) ∧
      ∀ tail, Closing tail →
        scan offset (text ++ tail) = seg ++ scan (offset + byteLength text) tail := by
  generalize hxs : seg ++ post = xs at h
  induction h generalizing seg with
  | nil => simp [hseg] at hxs
  | @blank offset blank rest blanks xs hlongest _ ih =>
    obtain ⟨text, rest, rfl, htext, hstop, hscan⟩ := ih hseg hknown hxs
    refine ⟨blank ++ text, rest, (List.append_assoc ..).symm, ?_, ?_, fun tail htail ↦ ?_⟩
    · simp [htext]
    · rw [hstop, byteLength_append, Nat.add_assoc]
    · have hblank := hlongest.before_closing htail fun hnil ↦ absurd hnil htext
      rw [List.append_assoc, hblank.scan_eq, hscan tail htail, byteLength_append, Nat.add_assoc]
      rfl
  | @known offset shape first rest t blanks xs hlongest ht _ ih =>
    obtain ⟨y, seg, rfl⟩ := List.exists_cons_of_ne_nil hseg
    obtain ⟨rfl, hrest⟩ := List.cons.inj hxs
    by_cases hmore : seg = []
    · subst hmore
      refine ⟨first, rest, rfl, hlongest.spelled.ne_nil, rfl, fun tail htail ↦ ?_⟩
      have hwhole : Longest shape first ([] ++ rest) := hlongest
      have hfirst : Longest shape first ([] ++ tail) :=
        hwhole.before_closing htail fun _ hblank ↦ by
          rw [hblank] at ht
          cases ht
      rw [List.nil_append] at hfirst
      rw [hfirst.scan_eq, ht]
      rfl
    · obtain ⟨text, rest, rfl, htext, hstop, hscan⟩ :=
        ih hmore (fun z hz ↦ hknown z (List.mem_cons_of_mem _ hz)) hrest
      refine ⟨first ++ text, rest, (List.append_assoc ..).symm, ?_, ?_, fun tail htail ↦ ?_⟩
      · simp [htext]
      · rw [List.getLast?_cons_of_ne_nil hmore, hstop, byteLength_append, Nat.add_assoc]
      · have hfirst := hlongest.before_closing htail fun hnil ↦ absurd hnil htext
        rw [List.append_assoc, hfirst.scan_eq, ht, hscan tail htail, byteLength_append,
          Nat.add_assoc]
        rfl
  | stray | unclosed =>
    obtain ⟨y, seg, rfl⟩ := List.exists_cons_of_ne_nil hseg
    obtain ⟨rfl, -⟩ := List.cons.inj hxs
    cases hknown _ List.mem_cons_self

/-- Tokens that stand next to one another in a text are scanned from the part of the text that
reaches from the first to the last of them. -/
theorem exists_slice_of_scan {s : Span} (h : scan offset cs = pre ++ (seg ++ post))
    (hknown : ∀ y ∈ seg, y.token.isUnknown = false)
    (hstart : seg.head?.map (·.span.start) = some s.start)
    (hstop : seg.getLast?.map (·.span.stop) = some s.stop) :
    ∃ text, Slice offset cs s text ∧
      ∀ tail, Closing tail → scan s.start (text ++ tail) = seg ++ scan s.stop tail := by
  obtain ⟨blanks, hcut⟩ := exists_cut offset cs
  cases seg with
  | nil => cases hstart
  | cons x seg =>
    rw [h] at hcut
    obtain ⟨front, rest, later, rfl, hfront, hcut⟩ := hcut.exists_front
    have hbehind : Cut x.span.start rest later (x :: seg ++ post) := hcut
    obtain ⟨text, rest, rfl, -, hend, hscan⟩ :=
      hbehind.exists_part (List.cons_ne_nil x seg) hknown
    obtain rfl : s = .over x.span.start text :=
      Span.eq_of_ends (Option.some.inj hstart).symm (Option.some.inj (hstop.symm.trans hend))
    refine ⟨text, ⟨front, rest, (List.append_assoc ..).symm, ?_⟩, hscan⟩
    rw [hfront]

end Lexeme

end LoxLang
