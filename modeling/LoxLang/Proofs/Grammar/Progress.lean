import LoxLang.Proofs.Grammar.Fuel
import Mathlib.Data.List.Forall2

/-!
# Reading makes progress

Reading a list of tokens always comes to a program and a list of faults: no reader goes astray, with
whatever fuel, and none with the fuel that is measured by the list runs out of it
(`Program.reading_progresses`). Each turn of the loop over declarations passes a token, also one
that ends in a fault and skips.

The faults tell where the reading got stuck. Those that charge a token charge a later one each time,
and once the end of the text is charged no token is charged any more. All of this is read off
`Charged`, which is what was noted on the way to the end.
-/

namespace LoxLang

namespace Fault

/-- Whether the fault is a token that stands where something else should. -/
def chargesToken (f : Fault) : Bool :=
  match f.cause with
  | .unexpectedToken .. => true
  | _ => false

/-- Whether the fault is the end of the text where something should follow. -/
def chargesEnd (f : Fault) : Bool :=
  match f.cause with
  | .unexpectedEnd _ => true
  | _ => false

/-- The fault charges the token at this position. -/
def Charges (tokens : List Lexeme) (f : Fault) (i : Nat) : Prop :=
  ∃ x expected, tokens[i]? = some x ∧ f = ⟨.unexpectedToken x.token.text expected, x.span⟩

/-- A fault that gives nothing up charges no token with being unexpected. -/
theorem Marginal.not_chargesToken {L : Listing} {f : Fault} (h : f.Marginal L) :
    f.chargesToken = false := by
  have hexpected := h.expected?
  unfold chargesToken
  cases hf : f.cause <;> simp [hf, Cause.expected?] at hexpected ⊢

/-- A fault that gives nothing up does not charge the end. -/
theorem Marginal.not_chargesEnd {L : Listing} {f : Fault} (h : f.Marginal L) :
    f.chargesEnd = false := by
  have hexpected := h.expected?
  unfold chargesEnd
  cases hf : f.cause <;> simp [hf, Cause.expected?] at hexpected ⊢

end Fault

namespace Charged

variable {L : Listing} {n : Nat} {faults : List Fault}

/-- The tokens that are charged are passed, one after the other. -/
theorem exists_positions (h : Charged L n faults) (hnoted : L.noted = []) :
    ∃ positions : List Nat, positions.Pairwise (· < ·) ∧
      (∀ i ∈ positions, i + n < L.tokens.length) ∧
      List.Forall₂ (Fault.Charges L.tokens) (faults.filter (·.chargesToken)) positions := by
  induction h with
  | start n =>
    rw [hnoted]
    exact ⟨[], .nil, nofun, .nil⟩
  | marginal _ hf ih =>
    rw [List.filter_append, List.filter_singleton, hf.not_chargesToken]
    simpa using ih
  | @token x ts faults expected h hx ih =>
    obtain ⟨positions, hincreasing, hbefore, hcharged⟩ := ih
    obtain ⟨front, htokens⟩ := hx
    have hlength := congrArg List.length htokens
    rw [List.length_append, List.length_cons] at hlength
    refine ⟨positions ++ [front.length], ?_, ?_, ?_⟩
    · refine List.pairwise_append.2 ⟨hincreasing, List.pairwise_singleton _ _, ?_⟩
      intro i hi j hj
      have hpassed := hbefore i hi
      rw [List.mem_singleton.1 hj]
      omega
    · intro i hi
      rcases List.mem_append.1 hi with hi | hi
      · have hpassed := hbefore i hi
        omega
      · rw [List.mem_singleton.1 hi]
        omega
    · rw [List.filter_append]
      refine List.rel_append hcharged (.cons ⟨x, expected, ?_, rfl⟩ .nil)
      rw [← htokens, List.getElem?_append_right (Nat.le_refl _), Nat.sub_self]
      rfl
  | ending _ _ ih =>
    rw [List.filter_append]
    simpa [Fault.chargesToken] using ih
  | pass _ hle ih =>
    obtain ⟨positions, hincreasing, hbefore, hcharged⟩ := ih
    exact ⟨positions, hincreasing,
      fun i hi ↦ Nat.lt_of_le_of_lt (Nat.add_le_add_left hle i) (hbefore i hi), hcharged⟩

/-- The end is charged only where no token is left, and at the end. -/
theorem of_chargesEnd (h : Charged L n faults) (hnoted : L.noted = []) {f : Fault}
    (hf : f ∈ faults) (hend : f.chargesEnd = true) : n = 0 ∧ f.span = .point L.stop := by
  induction h with
  | start n =>
    rw [hnoted] at hf
    cases hf
  | marginal _ hmarginal ih =>
    rcases List.mem_append.1 hf with hf | hf
    · exact ih hf
    · rw [List.mem_singleton.1 hf, hmarginal.not_chargesEnd] at hend
      cases hend
  | token _ _ _ ih =>
    rcases List.mem_append.1 hf with hf | hf
    · exact absurd (ih hf).1 (Nat.succ_ne_zero _)
    · rw [List.mem_singleton.1 hf] at hend
      cases hend
  | ending _ _ ih =>
    rcases List.mem_append.1 hf with hf | hf
    · exact ih hf
    · rw [List.mem_singleton.1 hf]
      exact ⟨rfl, rfl⟩
  | pass _ hle ih =>
    obtain ⟨rfl, hspan⟩ := ih hf
    exact ⟨Nat.le_zero.1 hle, hspan⟩

/-- Once the end is charged, no token is. -/
theorem pairwise_end (h : Charged L n faults) (hnoted : L.noted = []) :
    faults.Pairwise fun f g ↦ f.chargesEnd = true → g.chargesToken = false := by
  induction h with
  | start n =>
    rw [hnoted]
    exact .nil
  | marginal _ hf ih =>
    refine List.pairwise_append.2 ⟨ih, List.pairwise_singleton _ _, fun _ _ g hg _ ↦ ?_⟩
    rw [List.mem_singleton.1 hg]
    exact hf.not_chargesToken
  | token _ h _ ih =>
    refine List.pairwise_append.2 ⟨ih, List.pairwise_singleton _ _, fun f hf _ _ hend ↦ ?_⟩
    exact absurd (h.of_chargesEnd hnoted hf hend).1 (Nat.succ_ne_zero _)
  | ending _ _ ih =>
    refine List.pairwise_append.2 ⟨ih, List.pairwise_singleton _ _, fun _ _ g hg _ ↦ ?_⟩
    rw [List.mem_singleton.1 hg]
    rfl
  | pass _ _ ih => exact ih

end Charged

namespace Program

/-- Reading comes to its end whatever the tokens are: with the fuel that is measured by the list
there is one outcome, a program and the faults noted, and with less there is that or none. Of the
faults, those that charge a token charge it at strictly increasing positions, those that charge the
end are noted after them and stand at the end, and each turn of the reading passes a token. -/
theorem reading_progresses (tokens : List Lexeme) (stop : Nat) :
    (∃ p c,
      (∀ depth fuel, fuelFor tokens.length ≤ depth → fuelFor tokens.length ≤ fuel →
        Reader.program depth fuel ⟨tokens, none, stop, []⟩ = .ok p c) ∧
      (∀ depth fuel, Reader.program depth fuel ⟨tokens, none, stop, []⟩ = .exhausted ∨
        Reader.program depth fuel ⟨tokens, none, stop, []⟩ = .ok p c) ∧
      c.rest = [] ∧
      ofLexemes tokens stop = (if c.faults.isEmpty then .ok p else .error c.faults) ∧
      (∃ positions : List Nat, positions.Pairwise (· < ·) ∧
        List.Forall₂ (Fault.Charges tokens) (c.faults.filter (·.chargesToken)) positions) ∧
      (c.faults.Pairwise fun f g ↦ f.chargesEnd = true → g.chargesToken = false) ∧
      ∀ f ∈ c.faults, f.chargesEnd = true → f.span = .point stop) ∧
    ∀ (c : Cursor) (depth : Nat), c.rest ≠ [] → fuelFor c.rest.length ≤ depth →
      ∃ first d, Reader.recovering (Reader.declaration depth) c = .ok first d ∧
        d.rest <:+ c.rest ∧ d.rest.length < c.rest.length := by
  constructor
  · obtain ⟨p, c, hread, hrest, hc, heq⟩ := exists_ofLexemes tokens stop
    have hmore {depth fuel : Nat} (hdepth : fuelFor tokens.length ≤ depth)
        (hfuel : fuelFor tokens.length ≤ fuel) :
        Reader.program depth fuel ⟨tokens, none, stop, []⟩ = .ok p c := by
      rw [(Reader.approximates_program hdepth hfuel).eq_of_ne (by rw [hread]; nofun), hread]
    refine ⟨p, c, fun _ _ ↦ hmore, fun depth fuel ↦ ?_, hrest, heq, ?_,
      hc.charged.pairwise_end rfl, fun f hf hend ↦ (hc.charged.of_chargesEnd rfl hf hend).2⟩
    · -- with more fuel there is the same outcome, and it is the one above
      have henough := hmore (Nat.le_max_right depth _) (Nat.le_max_right fuel _)
      rcases Reader.approximates_program (Nat.le_max_left depth (fuelFor tokens.length))
        (Nat.le_max_left fuel (fuelFor tokens.length)) ⟨tokens, none, stop, []⟩ with h | h
      · exact .inl h
      · exact .inr (h.symm.trans henough)
    · obtain ⟨positions, hincreasing, -, hcharged⟩ := hc.charged.exists_positions rfl
      exact ⟨positions, hincreasing, hcharged⟩
  · intro c depth hrest hdepth
    have hmeasure : fuelFor c.rest.length = 32 * (c.rest.length + 1) := rfl
    obtain ⟨first, d, hread, hlength, hd⟩ :=
      Reader.exists_recovering c.orderly_listing hrest (by omega : _ < depth)
    exact ⟨first, d, hread, List.suffix_of_suffix_length_le hd.rest (List.suffix_append ..)
      (Nat.le_of_lt hlength), hlength⟩

end Program

end LoxLang
