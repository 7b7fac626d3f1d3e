import LoxLang.Proofs.Shapes
import LoxLang.Proofs.Texts

/-!
# Where the items of a text stand

Reading a text gives tokens and faults, in the order of the text. Each of them stands under at least
one character, no two of them under the same byte, and the bytes that none stands under are those of
the blanks (`Lexeme.read_layout`). Joining stretches of unknown text that touch is what makes this
more than a fact about scanning: nothing is lost where two stretches become one fault, nor where the
lexeme behind a stretch is passed on ahead of its turn.
-/

namespace LoxLang

/-! ### Texts under spans -/

/-- Whether the span holds the byte at an offset. -/
def Span.Covers (s : Span) (n : Nat) : Prop := s.start ≤ n ∧ n < s.stop

namespace Text

/-- Of a text that starts at an offset, this is the part under a span. Both ends of the span lie
between characters. -/
def Slice (offset : Nat) (cs : List Char) (s : Span) (text : List Char) : Prop :=
  ∃ before after, cs = before ++ text ++ after ∧ s = .over (offset + byteLength before) text

variable {offset : Nat} {cs u v : List Char} {s t : Span}

/-- Of two parts at the front of a text that are equally long, each is the other. -/
theorem eq_of_front_of_byteLength (hu : u <+: cs) (hv : v <+: cs)
    (h : byteLength u = byteLength v) : u = v := by
  have eq_of_front {a b : List Char} (hab : a <+: b) (h : byteLength a = byteLength b) :
      a = b := by
    obtain ⟨rest, rfl⟩ := hab
    rw [byteLength_append] at h
    have hrest := length_le_byteLength rest
    rw [List.length_eq_zero_iff.1 (by omega : rest.length = 0), List.append_nil]
  rcases List.prefix_or_prefix_of_prefix hu hv with huv | hvu
  · exact eq_of_front huv h
  · exact (eq_of_front hvu h.symm).symm

namespace Slice

/-- The part at the front. -/
protected theorem front (offset : Nat) (text rest : List Char) :
    Slice offset (text ++ rest) (.over offset text) text :=
  ⟨[], rest, rfl, rfl⟩

/-- A part of what stands behind a text. -/
protected theorem behind (h : Slice (offset + byteLength u) cs s v) :
    Slice offset (u ++ cs) s v := by
  obtain ⟨before, after, rfl, rfl⟩ := h
  refine ⟨u ++ before, after, by simp, ?_⟩
  rw [byteLength_append, Nat.add_assoc]

theorem le_start (h : Slice offset cs s u) : offset ≤ s.start := by
  obtain ⟨before, after, -, rfl⟩ := h
  exact Nat.le_add_right ..

/-- Two parts that touch are one part. -/
theorem join (hs : Slice offset cs s u) (ht : Slice offset cs t v)
    (hmeets : s.meets t = true) : Slice offset cs (s.through t) (u ++ v) := by
  obtain ⟨before, after, hcs, rfl⟩ := hs
  obtain ⟨before', after', hcs', rfl⟩ := ht
  have hstop : offset + byteLength before + byteLength u = offset + byteLength before' :=
    eq_of_beq hmeets
  have hbefore : before ++ u = before' := by
    have hu : before ++ u <+: cs := ⟨after, hcs.symm⟩
    have hv : before' <+: cs := ⟨v ++ after', by rw [hcs', List.append_assoc]⟩
    refine eq_of_front_of_byteLength hu hv ?_
    rw [byteLength_append]
    omega
  refine ⟨before, after', ?_, ?_⟩
  · rw [hcs', ← hbefore, List.append_assoc before u v]
  · simp only [Span.through, Span.over, byteLength_append, ← hbefore]
    congr 1
    omega

end Slice

end Text

namespace Lexeme

open Shape Text

variable {offset lo hi n : Nat} {cs : List Char} {blanks : List Span} {xs : List Lexeme}
  {items : List (Except Fault Lexeme)}

/-! ### The lexemes of a text -/

/-- The lexeme stands in the text, and if it is known then it is what its text is read as alone. -/
structure Stands (offset : Nat) (cs : List Char) (x : Lexeme) : Prop where
  ne_nil : x.text ≠ []
  slice : Slice offset cs x.span x.text
  alone : x.token.isUnknown = false →
    read (String.ofList x.text) 0 = [.ok (place 0 x.text x.token)]

/-- A lexeme that is known when it is read alone is read as a token. -/
theorem read_of_spelled {shape : Shape} {text : List Char} {t : Token}
    (h : Spelled shape text) (ht : shape.token? text = some t) :
    read (String.ofList text) 0 = [.ok (place 0 text t)] := by
  unfold read
  rw [String.toList_ofList, scan_of_spelled h ht, report_of_known]
  · rfl
  · intro x hx
    rw [List.mem_singleton.1 hx]
    exact isUnknown_of_spelled h ht

theorem Stands.behind {u : List Char} {x : Lexeme}
    (h : Stands (offset + byteLength u) cs x) : Stands offset (u ++ cs) x :=
  ⟨h.ne_nil, h.slice.behind, h.alone⟩

theorem Cut.stands (h : Cut offset cs blanks xs) : ∀ x ∈ xs, Stands offset cs x := by
  induction h with
  | nil => exact nofun
  | blank _ _ ih => exact fun x hx ↦ (ih x hx).behind
  | known hlongest ht _ ih =>
    refine List.forall_mem_cons.2 ⟨?_, fun x hx ↦ (ih x hx).behind⟩
    exact ⟨hlongest.spelled.ne_nil, .front .., fun _ ↦ read_of_spelled hlongest.spelled ht⟩
  | stray _ _ _ ih =>
    refine List.forall_mem_cons.2 ⟨?_, fun x hx ↦ (ih x hx).behind (u := [_])⟩
    exact ⟨List.cons_ne_nil _ _, .front _ [_] _, nofun⟩
  | @unclosed offset cs _ =>
    refine List.forall_mem_cons.2 ⟨⟨List.cons_ne_nil _ _, ?_, nofun⟩, nofun⟩
    have hfront := Slice.front offset ('"' :: cs) []
    rwa [List.append_nil] at hfront

theorem Cut.le_start_of_mem_blanks (h : Cut offset cs blanks xs) :
    ∀ b ∈ blanks, offset ≤ b.start := by
  induction h with
  | nil | unclosed => exact nofun
  | blank _ _ ih =>
    exact List.forall_mem_cons.2 ⟨Nat.le_refl _, fun b hb ↦ Nat.le_of_add_right_le (ih b hb)⟩
  | known _ _ _ ih | stray _ _ _ ih => exact fun b hb ↦ Nat.le_of_add_right_le (ih b hb)

/-- No byte before a text is under its lexemes or in its blanks. -/
theorem Cut.not_covers_of_lt (h : Cut offset cs blanks xs) (hn : n < offset) :
    (¬ ∃ x ∈ xs, x.span.Covers n) ∧ ¬ ∃ b ∈ blanks, b.Covers n := by
  constructor
  · rintro ⟨x, hx, hcovers⟩
    have hle := (h.stands x hx).slice.le_start
    have hstart := hcovers.1
    omega
  · rintro ⟨b, hb, hcovers⟩
    have hle := h.le_start_of_mem_blanks b hb
    have hstart := hcovers.1
    omega

/-- If each byte behind a first part of a text is under a lexeme or in a blank, then so is each byte
of the text, whichever of both the first part is. -/
theorem Cut.covers_behind {text rest : List Char}
    (h : Cut (offset + byteLength text) rest blanks xs)
    (ih : offset + byteLength text ≤ n →
      ((∃ x ∈ xs, x.span.Covers n) ↔ ¬ ∃ b ∈ blanks, b.Covers n)) (hlo : offset ≤ n) :
    ((Span.over offset text).Covers n ∨ (∃ x ∈ xs, x.span.Covers n) ↔
      ¬ ∃ b ∈ blanks, b.Covers n) ∧
    ((∃ x ∈ xs, x.span.Covers n) ↔
      ¬ ((Span.over offset text).Covers n ∨ ∃ b ∈ blanks, b.Covers n)) := by
  by_cases hn : n < offset + byteLength text
  · have hfirst : (Span.over offset text).Covers n := ⟨hlo, hn⟩
    obtain ⟨hxs, hblanks⟩ := h.not_covers_of_lt hn
    exact ⟨iff_of_true (.inl hfirst) hblanks, iff_of_false hxs fun hno ↦ hno (.inl hfirst)⟩
  · have hfirst : ¬ (Span.over offset text).Covers n := fun hcovers ↦ hn hcovers.2
    rw [or_iff_right hfirst, or_iff_right hfirst]
    exact ⟨ih (Nat.le_of_not_lt hn), ih (Nat.le_of_not_lt hn)⟩

/-- Each byte of a text is under one of its lexemes or in one of its blanks, and not in both. -/
theorem Cut.covers_iff (h : Cut offset cs blanks xs) (hlo : offset ≤ n)
    (hhi : n < offset + byteLength cs) :
    (∃ x ∈ xs, x.span.Covers n) ↔ ¬ ∃ b ∈ blanks, b.Covers n := by
  induction h with
  | nil offset =>
    rw [byteLength_nil] at hhi
    omega
  | blank _ hrest ih =>
    rw [byteLength_append, ← Nat.add_assoc] at hhi
    rw [List.exists_mem_cons_iff]
    exact (hrest.covers_behind (fun hn ↦ ih hn hhi) hlo).2
  | known _ _ hrest ih =>
    rw [byteLength_append, ← Nat.add_assoc] at hhi
    rw [List.exists_mem_cons_iff]
    exact (hrest.covers_behind (fun hn ↦ ih hn hhi) hlo).1
  | @stray offset c rest _ _ _ _ hrest ih =>
    rw [← List.singleton_append, byteLength_append, ← Nat.add_assoc] at hhi
    rw [List.exists_mem_cons_iff]
    exact (hrest.covers_behind (fun hn ↦ ih hn hhi) hlo).1
  | @unclosed offset cs _ =>
    exact iff_of_true ⟨_, List.mem_singleton_self _, hlo, hhi⟩ (by simp)

/-! ### Items -/

/-- Where a token or a fault stands. -/
def spanOf : Except Fault Lexeme → Span
  | .ok x => x.span
  | .error e => e.span

/-- What holds of the lexemes of a list, and of two that touch if they are joined, shows in each
item that the list is reported as. -/
theorem forall_mem_report (stretch : Option Lexeme) {P : Except Fault Lexeme → Prop}
    {Q : Lexeme → Prop}
    (ok : ∀ x, Q x → P (.ok x)) (unclosed : ∀ x, Q x → P (.error ⟨.unterminatedString, x.span⟩))
    (unexpected : ∀ x, Q x → P (.error x.unexpected))
    (join : ∀ x y, Q x → Q y → x.span.meets y.span = true → Q (x.join y))
    (hstretch : ∀ x ∈ stretch, Q x) (hxs : ∀ x ∈ xs, Q x) :
    ∀ item ∈ report stretch xs, P item := by
  fun_induction report stretch xs with
  | case1 => exact nofun
  | case2 y => exact List.forall_mem_singleton.2 (unexpected y (hstretch y rfl))
  | case3 x rest _ ih =>
    obtain ⟨hx, hrest⟩ := List.forall_mem_cons.1 hxs
    exact List.forall_mem_cons.2 ⟨unclosed x hx, ih nofun hrest⟩
  | case4 x rest _ _ ih =>
    obtain ⟨hx, hrest⟩ := List.forall_mem_cons.1 hxs
    exact ih (by simpa using hx) hrest
  | case5 x rest _ _ ih =>
    obtain ⟨hx, hrest⟩ := List.forall_mem_cons.1 hxs
    exact List.forall_mem_cons.2 ⟨ok x hx, ih nofun hrest⟩
  | case6 y x rest htouch ih =>
    obtain ⟨hx, hrest⟩ := List.forall_mem_cons.1 hxs
    have hmeets := (Bool.and_eq_true_iff.1 htouch).2
    exact ih (by simpa using join y x (hstretch y rfl) hx hmeets) hrest
  | case7 y x rest _ ih =>
    obtain ⟨hx, hrest⟩ := List.forall_mem_cons.1 hxs
    refine List.forall_mem_cons.2 ⟨unexpected y (hstretch y rfl), ?_⟩
    exact List.forall_mem_cons.2 ⟨ok x hx, ih nofun hrest⟩

/-- The items stand one after another from an offset on, and none of them is empty. -/
def Apart : Nat → List (Except Fault Lexeme) → Prop
  | _, [] => True
  | lo, item :: rest =>
    lo ≤ (spanOf item).start ∧ (spanOf item).start < (spanOf item).stop ∧
      Apart (spanOf item).stop rest

theorem Apart.forall_mem (h : Apart lo items) :
    ∀ item ∈ items, lo ≤ (spanOf item).start ∧ (spanOf item).start < (spanOf item).stop := by
  induction items generalizing lo with
  | nil => exact nofun
  | cons item rest ih =>
    obtain ⟨hlo, hitem, hrest⟩ := h
    refine List.forall_mem_cons.2 ⟨⟨hlo, hitem⟩, fun other hother ↦ ?_⟩
    have hlater := ih hrest other hother
    exact ⟨by omega, hlater.2⟩

theorem Apart.pairwise (h : Apart lo items) :
    items.Pairwise fun a b ↦ (spanOf a).stop ≤ (spanOf b).start := by
  induction items generalizing lo with
  | nil => exact .nil
  | cons item rest ih =>
    obtain ⟨-, -, hrest⟩ := h
    exact .cons (fun other hother ↦ (hrest.forall_mem other hother).1) (ih hrest)

/-- Lexemes that stand one after another are reported as items that do. -/
theorem apart_report (stretch : Option Lexeme) (h : Ordered lo hi (stretch.toList ++ xs)) :
    Apart lo (report stretch xs) := by
  fun_induction report stretch xs generalizing lo with
  | case1 => trivial
  | case2 y => exact ⟨h.1, h.2.1, trivial⟩
  | case3 x rest _ ih | case5 x rest _ _ ih => exact ⟨h.1, h.2.1, ih h.2.2⟩
  | case4 x rest _ _ ih => exact ih h
  | case6 y x rest _ ih =>
    obtain ⟨hlo, hy, hle, hx, hrest⟩ := h
    refine ih ⟨hlo, ?_, hrest⟩
    exact Nat.lt_of_lt_of_le hy (Nat.le_trans hle (Nat.le_of_lt hx))
  | case7 y x rest _ ih =>
    obtain ⟨hlo, hy, hle, hx, hrest⟩ := h
    exact ⟨hlo, hy, hle, hx, ih hrest⟩

/-- Two spans that touch cover together what reaches from the one to the other. -/
theorem covers_through {s t : Span} (hs : s.start ≤ s.stop) (ht : t.start ≤ t.stop)
    (hmeets : s.meets t = true) : (s.through t).Covers n ↔ s.Covers n ∨ t.Covers n := by
  have htouch : s.stop = t.start := eq_of_beq hmeets
  simp only [Span.Covers, Span.through]
  omega

/-- A byte is under an item exactly if it is under a lexeme. -/
theorem exists_covers_report (stretch : Option Lexeme)
    (h : Ordered lo hi (stretch.toList ++ xs)) :
    (∃ item ∈ report stretch xs, (spanOf item).Covers n) ↔
      ∃ x ∈ stretch.toList ++ xs, x.span.Covers n := by
  fun_induction report stretch xs generalizing lo with
  | case1 => simp
  | case2 y => simp [spanOf, unexpected]
  | case3 x rest _ ih | case5 x rest _ _ ih =>
    have hrest := ih h.2.2
    simp only [Option.toList_none, List.nil_append, List.exists_mem_cons_iff] at hrest ⊢
    exact or_congr_right hrest
  | case4 x rest _ _ ih => exact ih h
  | case6 y x rest htouch ih =>
    obtain ⟨hlo, hy, hle, hx, hrest⟩ := h
    have hjoin := ih ⟨hlo, Nat.lt_of_lt_of_le hy (Nat.le_trans hle (Nat.le_of_lt hx)), hrest⟩
    have hmeets := (Bool.and_eq_true_iff.1 htouch).2
    have hthrough := covers_through (n := n) (Nat.le_of_lt hy) (Nat.le_of_lt hx) hmeets
    simp only [Option.toList_some, List.singleton_append, List.exists_mem_cons_iff] at hjoin ⊢
    rw [hjoin, ← or_assoc]
    exact or_congr_left hthrough
  | case7 y x rest _ ih =>
    obtain ⟨-, -, -, -, hrest⟩ := h
    have hnone := ih hrest
    simp only [Option.toList_none, Option.toList_some, List.nil_append, List.singleton_append,
      List.exists_mem_cons_iff] at hnone ⊢
    rw [hnone]
    rfl

/-! ### The layout of a text -/

/-- How the items of a text that starts at an offset stand in it, where these are its blanks. -/
structure Layout (offset : Nat) (cs : List Char) (blanks : List Span)
    (items : List (Except Fault Lexeme)) : Prop where
  /-- Each item stands under characters of the text, of which there is at least one. -/
  slices : ∀ item ∈ items, ∃ text, text ≠ [] ∧ Slice offset cs (spanOf item) text
  /-- No item is empty. -/
  nonempty : ∀ item ∈ items, (spanOf item).start < (spanOf item).stop
  /-- Each item ends before the next begins. -/
  apart : items.Pairwise fun a b ↦ (spanOf a).stop ≤ (spanOf b).start
  /-- The bytes of the text that are under no item are those of its blanks. -/
  outside : ∀ n, offset ≤ n → n < offset + byteLength cs →
    ((¬ ∃ item ∈ items, (spanOf item).Covers n) ↔ ∃ b ∈ blanks, b.Covers n)
  /-- The text under a known token is read alone as the same token. -/
  tokens : ∀ x, .ok x ∈ items → x.token.isUnknown = false →
    Slice offset cs x.span x.text ∧
      read (String.ofList x.text) 0 = [.ok (place 0 x.text x.token)]
  /-- A fault of unexpected text names the text under its span. -/
  unexpected : ∀ text s, .error ⟨.unexpectedInput text, s⟩ ∈ items →
    Slice offset cs s text.toList

/-- What an item shows of the text under it. -/
structure Shows (offset : Nat) (cs : List Char) (item : Except Fault Lexeme) : Prop where
  slice : ∃ text, text ≠ [] ∧ Slice offset cs (spanOf item) text
  token : ∀ x, item = .ok x → x.token.isUnknown = false →
    Slice offset cs x.span x.text ∧
      read (String.ofList x.text) 0 = [.ok (place 0 x.text x.token)]
  unexpected : ∀ text s, item = .error ⟨.unexpectedInput text, s⟩ →
    Slice offset cs s text.toList

theorem shows_report (h : Cut offset cs blanks xs) :
    ∀ item ∈ report none xs, Shows offset cs item := by
  refine forall_mem_report none (Q := Stands offset cs) ?_ ?_ ?_ ?_ nofun h.stands
  · intro x hx
    refine ⟨⟨x.text, hx.ne_nil, hx.slice⟩, fun y hy hknown ↦ ?_, nofun⟩
    obtain rfl := Except.ok.inj hy
    exact ⟨hx.slice, hx.alone hknown⟩
  · exact fun x hx ↦ ⟨⟨x.text, hx.ne_nil, hx.slice⟩, nofun, nofun⟩
  · intro x hx
    refine ⟨⟨x.text, hx.ne_nil, hx.slice⟩, nofun, fun text s he ↦ ?_⟩
    cases he
    rw [String.toList_ofList]
    exact hx.slice
  · intro x y hx hy hmeets
    exact ⟨by simp [join, hx.ne_nil], hx.slice.join hy.slice hmeets, nofun⟩

/-- Reading a text loses nothing of it and reads nothing twice. It is cut by the rule of the longest
match. The tokens and faults that it is read as stand in it one after another, each under at least
one character and between whole characters; what is outside them all is what was cut off as white
space and comments. The text of a known token is read alone as that token, and a fault of unexpected
text names exactly the text under its span. -/
theorem read_layout (source : String) (offset : Nat) :
    ∃ blanks, Cut offset source.toList blanks (scan offset source.toList) ∧
      Layout offset source.toList blanks (read source offset) := by
  obtain ⟨blanks, hcut⟩ := exists_cut offset source.toList
  have hordered := ordered_scan offset source.toList
  have happart := apart_report none hordered
  have hshows := shows_report hcut
  refine ⟨blanks, hcut, ?_⟩
  exact {
    slices := fun item hitem ↦ (hshows item hitem).slice
    nonempty := fun item hitem ↦ (happart.forall_mem item hitem).2
    apart := happart.pairwise
    outside := fun n hlo hhi ↦ by
      have hreport := exists_covers_report none (n := n) hordered
      have hcovers := hcut.covers_iff hlo hhi
      exact not_iff_comm.1 (hreport.trans hcovers).symm
    tokens := fun x hx ↦ (hshows _ hx).token x rfl
    unexpected := fun text s hs ↦ (hshows _ hs).unexpected text s rfl }

end Lexeme

end LoxLang
