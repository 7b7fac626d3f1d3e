import LoxLang.Proofs.Reading

/-!
# Where readers stand in a listing

Readers go through one list of tokens from its front to its end. A place in the list is told by how
many tokens are left there, so what a reader has passed and what it has noted are compared by
numbers.

The list fixes what spans a reader can make: those that begin with one token and end with the same
or a later one (`Listing.Extent`). It also orders the faults that give something up (`Charged`).
Each of them is charged to the token ahead, which is skipped at once; so no token is charged twice,
earlier tokens are charged first, and when the end of the text is charged no token is left.
A cursor that got to its place in this way is `Orderly`.
-/

namespace LoxLang

/-- What is to be read: tokens, the offset at which their text ends, and the faults that were noted
before. -/
structure Listing where
  /-- The tokens. -/
  tokens : List Lexeme
  /-- The offset at which the text ends. -/
  stop : Nat
  /-- The faults that were noted before. -/
  noted : List Fault

namespace Listing

variable {L : Listing} {m n k : Nat} {s t : Span} {x : Lexeme} {ts : List Lexeme}

/-- At this offset a token ends that is passed between the places with `m` and `n` tokens left. -/
def Stops (L : Listing) (m n stop : Nat) : Prop :=
  ∃ y us, y :: us <:+ L.tokens ∧ us.length < m ∧ n ≤ us.length ∧ y.span.stop = stop

/-- The span is that of some of the tokens that are passed between the places with `m` and `n`
tokens left. -/
def Extent (L : Listing) (m n : Nat) (s : Span) : Prop :=
  ∃ x ts, x :: ts <:+ L.tokens ∧ ts.length < m ∧ x.span.start = s.start ∧
    L.Stops (ts.length + 1) n s.stop

theorem Stops.mono (h : L.Stops m n k) {m' n' : Nat} (hm : m ≤ m') (hn : n' ≤ n) :
    L.Stops m' n' k := by
  obtain ⟨y, us, hy, hlt, hle, hstop⟩ := h
  exact ⟨y, us, hy, Nat.lt_of_lt_of_le hlt hm, Nat.le_trans hn hle, hstop⟩

theorem Extent.mono (h : L.Extent m n s) {m' n' : Nat} (hm : m ≤ m') (hn : n' ≤ n) :
    L.Extent m' n' s := by
  obtain ⟨x, ts, hx, hlt, hstart, hstop⟩ := h
  exact ⟨x, ts, hx, Nat.lt_of_lt_of_le hlt hm, hstart, hstop.mono (Nat.le_refl _) hn⟩

/-- A span stops where a token does. -/
theorem Extent.stops (h : L.Extent m n s) : L.Stops m n s.stop := by
  obtain ⟨x, ts, -, hlt, -, hstop⟩ := h
  exact hstop.mono hlt (Nat.le_refl _)

/-- A span may be drawn out to the end of a later token. -/
theorem Extent.upTo (h : L.Extent m n s) {stop : Nat} (hstop : L.Stops n k stop) :
    L.Extent m k ⟨s.start, stop⟩ := by
  obtain ⟨x, ts, hx, hlt, hstart, y, us, -, hlast, hle, -⟩ := h
  exact ⟨x, ts, hx, hlt, hstart, hstop.mono (by omega) (Nat.le_refl _)⟩

/-- Two spans one after the other make one. -/
theorem Extent.through (h : L.Extent m n s) (h' : L.Extent n k t) : L.Extent m k (s.through t) :=
  h.upTo h'.stops

theorem Extent.le (h : L.Extent m n s) : n ≤ m := by
  obtain ⟨x, ts, -, hlt, -, y, us, -, hlast, hle, -⟩ := h
  omega

theorem Extent.all (h : L.Extent m n s) : L.Extent L.tokens.length 0 s := by
  obtain ⟨x, ts, hx, -, hstart, hstop⟩ := h
  exact ⟨x, ts, hx, hx.length_le, hstart, hstop.mono (Nat.le_refl _) (Nat.zero_le _)⟩

/-- One token has an extent. -/
theorem extent_span (h : x :: ts <:+ L.tokens) : L.Extent (ts.length + 1) ts.length x.span :=
  ⟨x, ts, h, Nat.lt_succ_self _, rfl, x, ts, h, Nat.lt_succ_self _, Nat.le_refl _, rfl⟩

end Listing

/-! ### What is noted -/

/-- A fault of the grammar that gives nothing up, charged to some of the tokens. -/
structure Fault.Marginal (L : Listing) (f : Fault) : Prop where
  category : f.cause.category = .grammar
  expected? : f.cause.expected? = none
  extent : L.Extent L.tokens.length 0 f.span

/-- A fault of the grammar that expects nothing may be noted at some of the tokens. -/
theorem Fault.Marginal.of_extent {L : Listing} {f : Fault} {m n : Nat} (h : L.Extent m n f.span)
    (hcategory : f.cause.category = .grammar) (hexpected : f.cause.expected? = none) :
    f.Marginal L :=
  ⟨hcategory, hexpected, h.all⟩

/-- What may have been noted where `n` tokens are left. -/
inductive Charged (L : Listing) : Nat → List Fault → Prop
  | start (n : Nat) : Charged L n L.noted
  /-- Something is wrong with tokens that are understood all the same. -/
  | marginal {n faults f} (h : Charged L n faults) (hf : f.Marginal L) :
    Charged L n (faults ++ [f])
  /-- The token ahead is charged, and will be skipped. -/
  | token {x ts faults} (expected : List String) (h : Charged L (ts.length + 1) faults)
    (hx : x :: ts <:+ L.tokens) :
    Charged L ts.length (faults ++ [⟨.unexpectedToken x.token.text expected, x.span⟩])
  /-- No token is left, and the end of the text is charged. -/
  | ending {faults} (expected : List String) (h : Charged L 0 faults) :
    Charged L 0 (faults ++ [⟨.unexpectedEnd expected, .point L.stop⟩])
  /-- Nothing is noted when tokens are passed. -/
  | pass {m n faults} (h : Charged L n faults) (hle : m ≤ n) : Charged L m faults

/-- Only faults of the grammar are noted. -/
theorem Charged.category {L : Listing} {n : Nat} {faults : List Fault} (h : Charged L n faults)
    (hnoted : ∀ f ∈ L.noted, f.cause.category = .grammar) :
    ∀ f ∈ faults, f.cause.category = .grammar := by
  induction h with
  | start => exact hnoted
  | marginal _ hf ih => exact List.forall_mem_append.2 ⟨ih, List.forall_mem_singleton.2 hf.category⟩
  | token _ _ _ ih => exact List.forall_mem_append.2 ⟨ih, List.forall_mem_singleton.2 rfl⟩
  | ending _ _ ih => exact List.forall_mem_append.2 ⟨ih, List.forall_mem_singleton.2 rfl⟩
  | pass _ _ ih => exact ih

/-! ### Cursors -/

namespace Cursor

/-- The cursor stands somewhere in the listing, and what it has noted is what can have been noted
on the way. -/
structure Orderly (L : Listing) (c : Cursor) : Prop where
  stop : c.stop = L.stop
  rest : c.rest <:+ L.tokens
  last : c.last = none ∧ c.rest = L.tokens ∨ ∃ x, c.last = some x ∧ x :: c.rest <:+ L.tokens
  charged : Charged L c.rest.length c.faults

/-- The span is that of some of the tokens between two cursors. -/
def Spans (L : Listing) (c d : Cursor) (s : Span) : Prop :=
  L.Extent c.rest.length d.rest.length s

/-- The listing that a cursor stands in, as far as it knows. -/
def listing (c : Cursor) : Listing := ⟨c.last.toList ++ c.rest, c.stop, c.faults⟩

/-- A cursor is orderly in the listing that it knows. -/
theorem orderly_listing (c : Cursor) : c.Orderly c.listing where
  stop := rfl
  rest := List.suffix_append _ _
  last := by
    cases hlast : c.last with
    | none => exact .inl ⟨rfl, by simp [listing, hlast]⟩
    | some x => exact .inr ⟨x, rfl, by simp [listing, hlast]⟩
  charged := .start _

/-- A fault that gives nothing up may be noted. -/
theorem Orderly.note {L : Listing} {c : Cursor} (h : c.Orderly L) {f : Fault}
    (hf : f.Marginal L) : (c.note f).Orderly L :=
  ⟨h.stop, h.rest, h.last, h.charged.marginal hf⟩

/-- To pass a token keeps the order. -/
theorem Orderly.advance {L : Listing} {c : Cursor} (h : c.Orderly L) : c.advance.Orderly L := by
  unfold Cursor.advance
  split
  · exact h
  · rename_i x ts hrest
    have hx : x :: ts <:+ L.tokens := hrest ▸ h.rest
    have hcharged := h.charged
    rw [hrest] at hcharged
    exact ⟨h.stop, (List.suffix_cons x ts).trans hx, .inr ⟨x, rfl, hx⟩,
      hcharged.pass (Nat.le_succ _)⟩

/-- After the first token, the cursor has reached the end of one. -/
theorem Orderly.stops_reached {L : Listing} {c : Cursor} (h : c.Orderly L)
    (hc : c.rest.length < L.tokens.length) :
    L.Stops (c.rest.length + 1) c.rest.length c.reached := by
  obtain ⟨-, hrest⟩ | ⟨x, hlast, hx⟩ := h.last
  · rw [hrest] at hc
    exact absurd hc (Nat.lt_irrefl _)
  · refine ⟨x, c.rest, hx, Nat.lt_succ_self _, Nat.le_refl _, ?_⟩
    rw [reached, hlast]
    rfl

theorem length_advance (c : Cursor) : c.advance.rest.length = c.rest.length - 1 := by
  unfold advance
  split
  · rename_i h
    rw [h, List.length_nil]
  · rename_i x rest h
    rw [h]
    rfl

/-- The search for the next statement goes forward only. -/
theorem orderly_nextStatement {L : Listing} {c : Cursor} (last : Option Lexeme)
    (ts : List Lexeme) (h : Orderly L { c with last, rest := ts }) :
    Orderly L { c with last := (nextStatement last ts).1, rest := (nextStatement last ts).2 } ∧
      (nextStatement last ts).2.length ≤ ts.length := by
  induction ts generalizing last with
  | nil => exact ⟨h, Nat.le_refl _⟩
  | cons x ts ih =>
    rw [nextStatement]
    split
    · exact ⟨h, Nat.le_refl _⟩
    · obtain ⟨hnext, hlength⟩ := ih _ h.advance
      exact ⟨hnext, Nat.le_succ_of_le hlength⟩

/-- The token that is charged is passed. -/
theorem Orderly.charge {L : Listing} {c : Cursor} (h : c.Orderly L) (expected : List String) :
    (c.note (c.unexpected expected)).advance.Orderly L := by
  obtain ⟨rest, last, stop, faults⟩ := c
  obtain ⟨hstop, hsuffix, hlast, hcharged⟩ := h
  obtain rfl : stop = L.stop := hstop
  cases rest with
  | nil => exact ⟨rfl, hsuffix, hlast, hcharged.ending expected⟩
  | cons x ts =>
    exact ⟨rfl, (List.suffix_cons x ts).trans hsuffix, .inr ⟨x, rfl, hsuffix⟩,
      hcharged.token expected hsuffix⟩

/-- What is skipped after a fault begins with the token at fault. -/
theorem orderly_recover {L : Listing} {c : Cursor} (h : c.advance.Orderly L) :
    c.recover.Orderly L ∧ c.recover.rest.length ≤ c.rest.length - 1 := by
  have ⟨hnext, hlength⟩ := orderly_nextStatement c.advance.last c.advance.rest h
  rw [length_advance] at hlength
  exact ⟨hnext, hlength⟩

end Cursor

end LoxLang
