import LoxLang.Decimal.Shortest
import LoxLang.Proofs.Quotations
import Mathlib.Algebra.Order.Field.Power
import Mathlib.Algebra.Order.Field.Rat
import Mathlib.Tactic.Linarith
import Mathlib.Tactic.NormNum
import Mathlib.Tactic.Positivity
import Mathlib.Tactic.Ring

/-!
# What a shortest decimal tells

The shortest decimal of a floating point number is rounded to that number
(`Decimal.Rounding.accepts_shortest`): seventeen digits are always enough, because the spacing of
numbers with seventeen digits is less than half as wide as the interval around the number
(`Decimal.Rounding.Wide`), and so the nearer of the two decimals around it is in the interval.

The intervals of different numbers have no decimal in common (`Decimal.eq_of_within`). Each begins
where the one before it ends, and an end that two of them share belongs to the one with the even
significand. As a decimal can be read back from its text (`Decimal.reads_positional`), a positive
number is told by its text.
-/

namespace LoxLang

namespace Decimal

/-! ### Decimals as numbers -/

/-- The number that a decimal stands for. -/
def toRat (d : Decimal) : ℚ := d.digits * 10 ^ d.exponent

theorem tensBelow_pos (e : Int) : 0 < tensBelow e := Nat.pow_pos (by decide)

theorem tensAbove_pos (e : Int) : 0 < tensAbove e := Nat.pow_pos (by decide)

theorem cast_tensAbove (e : Int) : (tensAbove e : ℚ) = 10 ^ e * tensBelow e := by
  unfold tensAbove tensBelow
  rw [Nat.pow_eq, Nat.pow_eq, Nat.cast_pow, Nat.cast_pow, Nat.cast_ofNat]
  rcases Int.le_total 0 e with he | he
  · obtain ⟨n, rfl⟩ := Int.eq_ofNat_of_zero_le he
    simp
  · obtain ⟨n, rfl⟩ := Int.exists_eq_neg_ofNat he
    simp

namespace Rounding

variable {r : Rounding} {d : Decimal}

/-- A number is in the interval. -/
def Holds (r : Rounding) (q : ℚ) : Prop :=
  if r.inclusive then (r.low : ℚ) ≤ q * r.unit ∧ q * r.unit ≤ r.high
  else (r.low : ℚ) < q * r.unit ∧ q * r.unit < r.high

/-- A decimal is accepted just if its number is in the interval. -/
theorem accepts_iff : r.accepts d = true ↔ r.Holds d.toRat := by
  have htens : (0 : ℚ) < tensBelow d.exponent := Nat.cast_pos.2 (tensBelow_pos _)
  have hpoint : ((d.digits * tensAbove d.exponent * r.unit : ℕ) : ℚ) =
      d.toRat * r.unit * tensBelow d.exponent := by
    push_cast
    rw [cast_tensAbove, toRat]
    ring
  unfold accepts Holds
  cases r.inclusive
  · simp only [Bool.false_eq_true, if_false, Bool.and_eq_true, decide_eq_true_eq]
    rw [← Nat.cast_lt (α := ℚ), ← Nat.cast_lt (α := ℚ) (n := r.high * _), hpoint, Nat.cast_mul,
      Nat.cast_mul, mul_lt_mul_iff_left₀ htens, mul_lt_mul_iff_left₀ htens]
  · simp only [if_true, Bool.and_eq_true, decide_eq_true_eq]
    rw [← Nat.cast_le (α := ℚ), ← Nat.cast_le (α := ℚ) (n := r.high * _), hpoint, Nat.cast_mul,
      Nat.cast_mul, mul_le_mul_iff_left₀ htens, mul_le_mul_iff_left₀ htens]

/-! ### Seventeen digits -/

/-- The interval reaches further to both sides of the number than half of its seventeenth digit. -/
structure Wide (r : Rounding) : Prop where
  unit_pos : 0 < r.unit
  value_pos : 0 < r.value
  low : r.value + 2 * 10 ^ 16 * r.low < 2 * 10 ^ 16 * r.value
  high : r.value + 2 * 10 ^ 16 * r.value < 2 * 10 ^ 16 * r.high

/-- A decimal that is found on a grid is accepted. -/
theorem accepts_of_onGrid? {e : Int} (h : r.onGrid? e = some d) : r.accepts d = true := by
  unfold onGrid? at h
  dsimp only at h
  split at h
  · split at h
    · obtain rfl := Option.some.inj h
      assumption
    · obtain rfl := Option.some.inj h
      assumption
  · obtain rfl := Option.some.inj h
    assumption
  · obtain rfl := Option.some.inj h
    assumption
  · cases h

/-- A decimal is found on a grid if one of the two next to the number is accepted. -/
theorem isSome_onGrid? {e : Int} (h : r.accepts (r.below e) = true ∨
    r.accepts { r.below e with digits := (r.below e).digits + 1 } = true) :
    (r.onGrid? e).isSome = true := by
  unfold onGrid?
  dsimp only
  rcases h with h | h
  · rw [h]
    cases r.accepts { r.below e with digits := (r.below e).digits + 1 } <;> rfl
  · rw [h]
    cases r.accepts (r.below e) <;> rfl

/-- The number lies between the two grid points around it. -/
theorem below_le (hunit : 0 < r.unit) (e : Int) :
    (r.below e).toRat * r.unit ≤ r.value ∧
      (r.value : ℚ) < ((r.below e).toRat + 10 ^ e) * r.unit := by
  have htens : (0 : ℚ) < tensBelow e := Nat.cast_pos.2 (tensBelow_pos e)
  have hpos : 0 < r.unit * tensAbove e := Nat.mul_pos hunit (tensAbove_pos e)
  have hle := Nat.div_mul_le_self (r.value * tensBelow e) (r.unit * tensAbove e)
  have hlt := Nat.lt_div_mul_add hpos (a := r.value * tensBelow e)
  rw [← Nat.cast_le (α := ℚ)] at hle
  rw [← Nat.cast_lt (α := ℚ)] at hlt
  push_cast [cast_tensAbove] at hle hlt
  unfold toRat below
  dsimp only
  constructor
  · rw [← mul_le_mul_iff_left₀ htens]
    refine le_of_eq_of_le ?_ hle
    ring
  · rw [← mul_lt_mul_iff_left₀ htens]
    refine lt_of_lt_of_eq hlt ?_
    ring

/-- On a grid that is this fine one of the two grid points around the number is rounded to it. -/
theorem isSome_onGrid?_of_le (h : r.Wide) {e : Int}
    (he : (10 : ℚ) ^ 16 * 10 ^ e * r.unit ≤ r.value) : (r.onGrid? e).isSome = true := by
  obtain ⟨hlower, hupper⟩ := below_le h.unit_pos e
  have hlow : (r.value + 2 * 10 ^ 16 * r.low : ℚ) < 2 * 10 ^ 16 * r.value := mod_cast h.low
  have hhigh : (r.value + 2 * 10 ^ 16 * r.value : ℚ) < 2 * 10 ^ 16 * r.high := mod_cast h.high
  have hnext : ({ r.below e with digits := (r.below e).digits + 1 } : Decimal).toRat =
      (r.below e).toRat + 10 ^ e := by
    unfold toRat below
    push_cast
    ring
  have hpos : (0 : ℚ) < 10 ^ e * r.unit :=
    mul_pos (zpow_pos (by norm_num) e) (Nat.cast_pos.2 h.unit_pos)
  have hholds {q : ℚ} (hq : (r.low : ℚ) < q * r.unit ∧ q * r.unit < r.high) : r.Holds q := by
    unfold Holds
    split
    · exact ⟨hq.1.le, hq.2.le⟩
    · exact hq
  refine isSome_onGrid? ?_
  rw [accepts_iff, accepts_iff, hnext]
  -- the nearer of the two grid points is not further away than half of the spacing
  rcases le_total (2 * ((r.value : ℚ) - (r.below e).toRat * r.unit)) (10 ^ e * r.unit) with
    hnear | hnear
  · refine .inl (hholds ⟨?_, ?_⟩) <;> linarith
  · refine .inr (hholds ⟨?_, ?_⟩) <;> linarith

/-- A number is at least the power of ten that has as many digits. -/
theorem pow_length_toDigits_le {n : Nat} (hn : 0 < n) :
    10 ^ ((Nat.toDigits 10 n).length - 1) ≤ n := by
  rcases Nat.eq_zero_or_pos ((Nat.toDigits 10 n).length - 1) with hlength | hlength
  · rw [hlength]
    exact hn
  · have hdigits : ¬ (Nat.toDigits 10 n).length ≤ (Nat.toDigits 10 n).length - 1 := by omega
    rw [Nat.length_toDigits_le_iff (by decide) hlength] at hdigits
    exact Nat.le_of_not_lt hdigits

/-- A number is less than the next power of ten. -/
theorem lt_pow_length_toDigits (n : Nat) : n < 10 ^ (Nat.toDigits 10 n).length :=
  (Nat.length_toDigits_le_iff (by decide) Nat.length_toDigits_pos).1 (Nat.le_refl _)

/-- The power of ten below the magnitude is not above the number. -/
theorem pow_magnitude_le (hunit : 0 < r.unit) (hvalue : 0 < r.value) :
    (10 : ℚ) ^ (r.magnitude - 1) * r.unit ≤ r.value := by
  unfold magnitude
  split
  · rename_i hle
    have hlength := pow_length_toDigits_le (Nat.div_pos hle hunit)
    have hpos := Nat.length_toDigits_pos (b := 10) (n := r.value / r.unit)
    generalize (Nat.toDigits 10 (r.value / r.unit)).length = n at hlength hpos
    obtain ⟨k, rfl⟩ := Nat.exists_eq_succ_of_ne_zero hpos.ne'
    rw [Nat.le_div_iff_mul_le hunit, ← Nat.cast_le (α := ℚ)] at hlength
    simpa using hlength
  · have hlength := lt_pow_length_toDigits (r.unit / r.value)
    have hpos := Nat.length_toDigits_pos (b := 10) (n := r.unit / r.value)
    dsimp only
    generalize (Nat.toDigits 10 (r.unit / r.value)).length = n at hlength hpos
    obtain ⟨k, rfl⟩ := Nat.exists_eq_succ_of_ne_zero hpos.ne'
    -- a negative power of ten is at most the number as soon as its inverse is at least the inverse
    have hinverse {k : Nat} (h : r.unit ≤ r.value * 10 ^ k) :
        (10 : ℚ) ^ (-k : Int) * r.unit ≤ r.value := by
      rw [zpow_neg, zpow_natCast, inv_mul_le_iff₀ (by positivity), mul_comm]
      exact_mod_cast h
    split
    · rename_i hle
      convert hinverse hle using 3
      push_cast
      ring
    · rw [Nat.div_lt_iff_lt_mul hvalue, Nat.mul_comm] at hlength
      convert hinverse hlength.le using 3
      push_cast
      ring

/-- The shortest decimal is rounded to the number. -/
theorem accepts_shortest (h : r.Wide) : r.accepts r.shortest = true := by
  have hfine : (r.onGrid? (r.magnitude - 17)).isSome = true := by
    refine isSome_onGrid?_of_le h (le_of_eq_of_le ?_ (pow_magnitude_le h.unit_pos h.value_pos))
    rw [← zpow_natCast, ← zpow_add₀ (by norm_num)]
    congr 2
    push_cast
    ring
  unfold shortest
  dsimp only
  cases hfound : (List.range 18).findSome? fun n : Nat ↦ r.onGrid? (r.magnitude - n) with
  | none =>
    have hnone := List.findSome?_eq_none_iff.1 hfound 17 (by decide)
    rw [Option.isSome_iff_ne_none] at hfine
    exact absurd hnone hfine
  | some d =>
    obtain ⟨n, -, hn⟩ := List.exists_of_findSome?_eq_some hfound
    exact accepts_of_onGrid? hn

end Rounding

/-! ### The intervals of floating point numbers -/

/-- How many units make one. The ends of intervals are counted in quarters of the smallest positive
number. -/
def resolution : Nat := 2 ^ 1076

theorem resolution_pos : 0 < resolution := by
  unfold resolution
  positivity

/-- The significand of the positive number with these bits, the leading one included. -/
def significand (bits : Nat) : Nat := if bits < 2 ^ 52 then bits else bits % 2 ^ 52 + 2 ^ 52

/-- The lower end of the interval of the positive number with these bits, in units. -/
def lowEnd (bits : Nat) : Nat :=
  (4 * significand bits - if bits % 2 ^ 52 = 0 ∧ 1 < bits / 2 ^ 52 then 1 else 2) *
    2 ^ (bits / 2 ^ 52 - 1)

/-- The upper end of the interval, in units. -/
def highEnd (bits : Nat) : Nat := (4 * significand bits + 2) * 2 ^ (bits / 2 ^ 52 - 1)

/-- Within one power of two, the next number has the next significand. -/
theorem significand_succ {n : Nat} (h : (n + 1) % 2 ^ 52 ≠ 0) :
    significand (n + 1) = significand n + 1 := by
  unfold significand
  split <;> split <;> omega

/-- The interval of a number ends where that of the next number begins. -/
theorem highEnd_eq (n : Nat) : highEnd n = lowEnd (n + 1) := by
  unfold highEnd lowEnd
  by_cases hcarry : (n + 1) % 2 ^ 52 = 0
  · -- the next number is a power of two
    rw [hcarry]
    by_cases hfirst : n < 2 ^ 52
    · obtain rfl : n = 2 ^ 52 - 1 := by omega
      rfl
    · obtain ⟨q, hq⟩ : ∃ q, n = 2 ^ 52 * (q + 1) + (2 ^ 52 - 1) := ⟨n / 2 ^ 52 - 1, by omega⟩
      have hdiv : n / 2 ^ 52 = q + 1 := by omega
      have hnext : (n + 1) / 2 ^ 52 = q + 2 := by omega
      have hsignificand : significand n = 2 ^ 53 - 1 := by
        unfold significand
        rw [if_neg hfirst]
        omega
      have hpower : significand (n + 1) = 2 ^ 52 := by
        unfold significand
        rw [if_neg (by omega), hcarry]
        rfl
      rw [hdiv, hnext, hsignificand, hpower, if_pos ⟨rfl, by omega⟩, Nat.add_sub_cancel,
        show q + 2 - 1 = q + 1 from rfl, Nat.pow_succ]
      omega
  · have hdiv : (n + 1) / 2 ^ 52 = n / 2 ^ 52 := by omega
    rw [significand_succ hcarry, hdiv, if_neg fun h ↦ hcarry h.1]
    congr 1

/-- The interval of a number has a length. -/
theorem lowEnd_lt_highEnd (n : Nat) : lowEnd n < highEnd n := by
  unfold lowEnd highEnd
  have hpos := Nat.two_pow_pos (n / 2 ^ 52 - 1)
  refine Nat.mul_lt_mul_of_pos_right ?_ hpos
  split <;> omega

/-- The intervals of different numbers meet at most in an end. -/
theorem highEnd_le_lowEnd {m n : Nat} (h : m < n) : highEnd m ≤ lowEnd n := by
  induction n, h using Nat.le_induction with
  | base => exact (highEnd_eq m).le
  | succ n _ ih => exact ih.trans ((lowEnd_lt_highEnd n).le.trans (highEnd_eq n).le)

/-- Where the interval of a significand with its shift ends, in quarters of its unit. -/
theorem ends_ofBinary (significand shift : Nat) (close : Bool) :
    let r := Rounding.ofBinary significand (shift - 1074) close
    r.low * resolution = (4 * significand - if close then 1 else 2) * 2 ^ shift * r.unit ∧
      r.high * resolution = (4 * significand + 2) * 2 ^ shift * r.unit := by
  have hscale : 2 ^ ((shift : Int) - 1074 - 2).toNat * resolution =
      2 ^ shift * 2 ^ (2 - ((shift : Int) - 1074)).toNat := by
    rw [resolution, ← Nat.pow_add, ← Nat.pow_add]
    congr 1
    omega
  unfold Rounding.ofBinary
  dsimp only
  rw [Nat.pow_eq, Nat.pow_eq]
  constructor
  · rw [Nat.mul_assoc, hscale, Nat.mul_assoc]
  · rw [Nat.mul_assoc, hscale, Nat.mul_assoc]

/-- The interval of a number with a significand in range is wide enough. -/
theorem wide_ofBinary {significand : Nat} (hpos : 0 < significand) (hlt : significand < 2 ^ 53)
    (exponent : Int) {close : Bool} (hclose : close = true → significand = 2 ^ 52) :
    (Rounding.ofBinary significand exponent close).Wide := by
  have hscale := Nat.two_pow_pos (exponent - 2).toNat
  have hmul {a b c k : Nat} (h : a + k * b < k * c) :
      a * 2 ^ (exponent - 2).toNat + k * (b * 2 ^ (exponent - 2).toNat) <
        k * (c * 2 ^ (exponent - 2).toNat) := by
    rw [← Nat.mul_assoc, ← Nat.mul_assoc, ← Nat.add_mul]
    exact Nat.mul_lt_mul_of_pos_right h hscale
  unfold Rounding.ofBinary
  refine ⟨?_, ?_, ?_, ?_⟩ <;> dsimp only <;> rw [Nat.pow_eq]
  · exact Nat.two_pow_pos _
  · exact Nat.mul_pos (by omega) hscale
  · refine hmul ?_
    cases close with
    | false =>
      simp only [Bool.false_eq_true, if_false]
      omega
    | true =>
      obtain rfl := hclose rfl
      decide
  · exact hmul (by omega)

theorem roundingOfBits_eq {bits : UInt64} (h : bits.toNat < 2 ^ 63) :
    roundingOfBits bits = .ofBinary (significand bits.toNat) ((bits.toNat / 2 ^ 52 - 1 : ℕ) - 1074)
      (decide (bits.toNat % 2 ^ 52 = 0 ∧ 1 < bits.toNat / 2 ^ 52)) := by
  have hfraction : (bits &&& 0xFFFFFFFFFFFFF).toNat = bits.toNat % 2 ^ 52 := by
    rw [UInt64.toNat_and]
    exact Nat.and_two_pow_sub_one_eq_mod bits.toNat 52
  have hbiased : ((bits >>> 52) &&& 0x7FF).toNat = bits.toNat / 2 ^ 52 := by
    rw [UInt64.toNat_and, UInt64.toNat_shiftRight]
    refine (Nat.and_two_pow_sub_one_eq_mod _ 11).trans ?_
    rw [Nat.shiftRight_eq_div_pow]
    refine Nat.mod_eq_of_lt ?_
    show bits.toNat / 2 ^ 52 < 2 ^ 11
    omega
  unfold roundingOfBits significand
  dsimp only
  rw [hfraction, hbiased]
  by_cases hsmall : bits.toNat < 2 ^ 52
  · have hdiv : bits.toNat / 2 ^ 52 = 0 := Nat.div_eq_of_lt hsmall
    rw [if_pos hdiv, if_pos hsmall, hdiv, Nat.mod_eq_of_lt hsmall, decide_eq_false (by omega)]
    rfl
  · have hdiv : 0 < bits.toNat / 2 ^ 52 := by omega
    rw [if_neg hdiv.ne', if_neg hsmall, Bool.decide_and]
    congr 1
    omega

theorem significand_mod_two (n : Nat) : significand n % 2 = n % 2 := by
  unfold significand
  split <;> omega

/-- The interval of a positive number is wide enough. -/
theorem wide_roundingOfBits {bits : UInt64} (h : bits.toNat < 2 ^ 63) (hpos : 0 < bits.toNat) :
    (roundingOfBits bits).Wide := by
  rw [roundingOfBits_eq h]
  refine wide_ofBinary ?_ ?_ _ fun hclose ↦ ?_ <;> unfold significand
  · split <;> omega
  · split <;> omega
  · obtain ⟨hfraction, hbiased⟩ := of_decide_eq_true hclose
    rw [if_neg (by omega), hfraction, Nat.zero_add]

/-- The number is rounded to the positive floating point number with these bits. The ends of the
interval are, if the last bit is clear. -/
def Within (bits : Nat) (q : ℚ) : Prop :=
  if bits % 2 = 0 then (lowEnd bits : ℚ) ≤ q * resolution ∧ q * resolution ≤ highEnd bits
  else (lowEnd bits : ℚ) < q * resolution ∧ q * resolution < highEnd bits

/-- What is in the interval that the bits give is within the ends for these bits. -/
theorem within_of_holds {bits : UInt64} (h : bits.toNat < 2 ^ 63) (hpos : 0 < bits.toNat) {q : ℚ}
    (hq : (roundingOfBits bits).Holds q) : Within bits.toNat q := by
  have hunit := (wide_roundingOfBits h hpos).unit_pos
  have hends := ends_ofBinary (significand bits.toNat) (bits.toNat / 2 ^ 52 - 1)
    (decide (bits.toNat % 2 ^ 52 = 0 ∧ 1 < bits.toNat / 2 ^ 52))
  have hinclusive : (roundingOfBits bits).inclusive = (bits.toNat % 2 == 0) := by
    rw [roundingOfBits_eq h, ← significand_mod_two]
    rfl
  rw [← roundingOfBits_eq h] at hends
  simp only [decide_eq_true_eq] at hends
  generalize roundingOfBits bits = r at hq hunit hends hinclusive
  have hlow : (r.low : ℚ) * resolution = lowEnd bits.toNat * r.unit := mod_cast hends.1
  have hhigh : (r.high : ℚ) * resolution = highEnd bits.toNat * r.unit := mod_cast hends.2
  have hunit' : (0 : ℚ) < r.unit := Nat.cast_pos.2 hunit
  have hscale : (0 : ℚ) < resolution := Nat.cast_pos.2 resolution_pos
  unfold Rounding.Holds at hq
  unfold Within
  rw [hinclusive] at hq
  simp only [beq_iff_eq] at hq
  split
  · rename_i heven
    rw [if_pos heven] at hq
    constructor
    · rw [← mul_le_mul_iff_left₀ hunit', ← hlow, mul_right_comm, mul_le_mul_iff_left₀ hscale]
      exact hq.1
    · rw [← mul_le_mul_iff_left₀ hunit', ← hhigh, mul_right_comm, mul_le_mul_iff_left₀ hscale]
      exact hq.2
  · rename_i hodd
    rw [if_neg hodd] at hq
    constructor
    · rw [← mul_lt_mul_iff_left₀ hunit', ← hlow, mul_right_comm, mul_lt_mul_iff_left₀ hscale]
      exact hq.1
    · rw [← mul_lt_mul_iff_left₀ hunit', ← hhigh, mul_right_comm, mul_lt_mul_iff_left₀ hscale]
      exact hq.2

/-- Whether the ends of an interval belong to it or not, they are bounds. -/
theorem Within.bounds {n : Nat} {q : ℚ} (h : Within n q) :
    (lowEnd n : ℚ) ≤ q * resolution ∧ q * resolution ≤ highEnd n := by
  unfold Within at h
  split at h
  · exact h
  · exact ⟨h.1.le, h.2.le⟩

/-- An end of the interval is rounded to a number only if its last bit is clear. -/
theorem Within.even {n : Nat} {q : ℚ} (h : Within n q)
    (hend : q * resolution = lowEnd n ∨ q * resolution = highEnd n) : n % 2 = 0 := by
  unfold Within at h
  split at h
  · assumption
  · rcases hend with hend | hend
    · exact absurd hend h.1.ne'
    · exact absurd hend h.2.ne

/-- A number is rounded to one floating point number alone. -/
theorem eq_of_within {m n : Nat} {q : ℚ} (hm : Within m q) (hn : Within n q) : m = n := by
  wlog hlt : m < n generalizing m n
  · rcases Nat.lt_trichotomy m n with h | h | h
    · exact absurd h hlt
    · exact h
    · exact (this hn hm h).symm
  -- the number is the end where the two intervals meet
  have hle : (highEnd m : ℚ) ≤ lowEnd n := Nat.cast_le.2 (highEnd_le_lowEnd hlt)
  have hend : q * resolution = highEnd m :=
    le_antisymm hm.bounds.2 (hle.trans hn.bounds.1)
  have hends : highEnd m = lowEnd n :=
    Nat.cast_injective (R := ℚ) (le_antisymm hle (hn.bounds.1.trans hm.bounds.2))
  have hmeven := hm.even (.inr hend)
  have hneven := hn.even (.inl (hend.trans (congrArg Nat.cast hends)))
  -- but numbers with clear last bits are no neighbours
  have hgap : highEnd (m + 1) ≤ lowEnd n := highEnd_le_lowEnd (by omega)
  have hnext := lowEnd_lt_highEnd (m + 1)
  rw [← highEnd_eq] at hnext
  omega

/-! ### The texts of decimals -/

/-- The text is a numeral for this number. -/
def Reads (cs : List Char) (q : ℚ) : Prop :=
  ∃ whole part : List Char, whole ≠ [] ∧ (∀ c ∈ whole ++ part, c.isDigit = true) ∧
    cs = whole ++ (if part = [] then [] else '.' :: part) ∧
    q * 10 ^ part.length = Nat.ofDigitChars 10 (whole ++ part) 0

/-- A numeral holds digits and points only. -/
theorem Reads.mem {cs : List Char} {q : ℚ} (h : Reads cs q) {c : Char} (hc : c ∈ cs) :
    c.isDigit = true ∨ c = '.' := by
  obtain ⟨whole, part, -, hdigits, rfl, -⟩ := h
  rcases List.mem_append.1 hc with hc | hc
  · exact .inl (hdigits c (List.mem_append_left _ hc))
  · split at hc
    · cases hc
    · rcases List.mem_cons.1 hc with rfl | hc
      · exact .inr rfl
      · exact .inl (hdigits c (List.mem_append_right _ hc))

/-- A numeral stands for one number. -/
theorem Reads.unique {cs : List Char} {q q' : ℚ} (h : Reads cs q) (h' : Reads cs q') : q = q' := by
  obtain ⟨whole, part, -, hdigits, rfl, hq⟩ := h
  obtain ⟨whole', part', -, hdigits', htext, hq'⟩ := h'
  have hhead (part : List Char) :
      ∀ c ∈ (if part = [] then [] else '.' :: part).head?, c.isDigit = false := by
    split
    · nofun
    · rintro c ⟨⟩
      rfl
  obtain ⟨rfl, hrest⟩ := Text.eq_of_append_eq_append
    (fun c hc ↦ hdigits c (List.mem_append_left _ hc))
    (fun c hc ↦ hdigits' c (List.mem_append_left _ hc)) (hhead part) (hhead part') htext
  obtain rfl : part = part' := by
    split at hrest <;> split at hrest
    · simp_all
    · cases hrest
    · cases hrest
    · exact (List.cons.inj hrest).2
  exact mul_right_cancel₀ (pow_ne_zero _ (by norm_num)) (hq.trans hq'.symm)

/-- The digits and how many of them stand behind the point. -/
theorem reads_of_digits (whole part : List Char) {n : Nat} {e : Int} (hwhole : whole ≠ [])
    (hdigits : ∀ c ∈ whole ++ part, c.isDigit = true)
    (hvalue : Nat.ofDigitChars 10 (whole ++ part) 0 = n) (hpart : e = -part.length) :
    Reads (whole ++ (if part = [] then [] else '.' :: part)) (n * 10 ^ e) := by
  refine ⟨whole, part, hwhole, hdigits, rfl, ?_⟩
  rw [hvalue, hpart, zpow_neg, zpow_natCast]
  exact inv_mul_cancel_right₀ (pow_ne_zero _ (by norm_num)) _

section Positional

variable {digits : List Char} {n : Nat} {e : Int}

theorem isDigit_of_mem_replicate {c : Char} {k : Nat} (hc : c ∈ List.replicate k '0') :
    c.isDigit = true := by
  rw [List.eq_of_mem_replicate hc]
  rfl

/-- A whole number, with zeros in place of a positive exponent. -/
theorem reads_append_zeros (hne : digits ≠ []) (hdigits : ∀ c ∈ digits, c.isDigit = true)
    (hvalue : Nat.ofDigitChars 10 digits 0 = n) (k : Nat) :
    Reads (digits ++ List.replicate k '0') (n * 10 ^ (k : Int)) := by
  have hall : ∀ c ∈ digits ++ List.replicate k '0' ++ [], c.isDigit = true := by
    rw [List.append_nil]
    exact List.forall_mem_append.2 ⟨hdigits, fun _ ↦ isDigit_of_mem_replicate⟩
  have hzeros : Nat.ofDigitChars 10 (digits ++ List.replicate k '0' ++ []) 0 = 10 ^ k * n := by
    rw [List.append_nil, Nat.ofDigitChars_append, hvalue, Nat.ofDigitChars_replicate_zero]
  have hreads := reads_of_digits (e := 0) _ [] (by simp [hne]) hall hzeros rfl
  simpa [mul_comm] using hreads

/-- A number with the point among its digits. -/
theorem reads_take_drop (hdigits : ∀ c ∈ digits, c.isDigit = true)
    (hvalue : Nat.ofDigitChars 10 digits 0 = n) (hneg : e < 0) (hlt : (-e).toNat < digits.length) :
    Reads (digits.take (digits.length - (-e).toNat) ++
      '.' :: digits.drop (digits.length - (-e).toNat)) (n * 10 ^ e) := by
  have hwhole : digits.take (digits.length - (-e).toNat) ≠ [] := by
    rw [ne_eq, List.take_eq_nil_iff, ← List.length_eq_zero_iff]
    omega
  have hpart : digits.drop (digits.length - (-e).toNat) ≠ [] := by
    rw [ne_eq, List.drop_eq_nil_iff]
    omega
  have hlength : e = -(digits.drop (digits.length - (-e).toNat)).length := by
    rw [List.length_drop]
    omega
  have hreads := reads_of_digits (n := n) (digits.take (digits.length - (-e).toNat)) _ hwhole
    (by rwa [List.take_append_drop]) (by rw [List.take_append_drop, hvalue]) hlength
  rwa [if_neg hpart] at hreads

/-- A number with the point before its digits, and zeros between them. -/
theorem reads_zeros_append (hne : digits ≠ []) (hdigits : ∀ c ∈ digits, c.isDigit = true)
    (hvalue : Nat.ofDigitChars 10 digits 0 = n) (hneg : e < 0)
    (hle : digits.length ≤ (-e).toNat) :
    Reads ('0' :: '.' :: (List.replicate ((-e).toNat - digits.length) '0' ++ digits))
      (n * 10 ^ e) := by
  have hpart : List.replicate ((-e).toNat - digits.length) '0' ++ digits ≠ [] := by
    simp [hne]
  have hall : ∀ c ∈ ['0'] ++ (List.replicate ((-e).toNat - digits.length) '0' ++ digits),
      c.isDigit = true := by
    rw [List.singleton_append]
    exact List.forall_mem_cons.2 ⟨rfl, List.forall_mem_append.2
      ⟨fun _ ↦ isDigit_of_mem_replicate, hdigits⟩⟩
  have hzeros : Nat.ofDigitChars 10
      (['0'] ++ (List.replicate ((-e).toNat - digits.length) '0' ++ digits)) 0 = n := by
    rw [List.singleton_append, Nat.ofDigitChars_cons, Nat.ofDigitChars_append,
      Nat.ofDigitChars_replicate_zero]
    exact hvalue
  have hlength : e = -(List.replicate ((-e).toNat - digits.length) '0' ++ digits).length := by
    rw [List.length_append, List.length_replicate]
    omega
  have hreads := reads_of_digits ['0'] _ (List.cons_ne_nil _ _) hall hzeros hlength
  rwa [if_neg hpart] at hreads

end Positional

/-- The text of a decimal number is read as the number. -/
theorem reads_positional (d : Decimal) : Reads d.positional.toList d.toRat := by
  have hdigits : ∀ c ∈ Nat.toDigits 10 d.digits, c.isDigit = true := fun c ↦
    Nat.isDigit_of_mem_toDigits (by decide) (by decide)
  have hvalue : Nat.ofDigitChars 10 (Nat.toDigits 10 d.digits) 0 = d.digits :=
    Nat.ofDigitChars_ten_toDigits
  have hne : Nat.toDigits 10 d.digits ≠ [] := Nat.toDigits_ne_nil
  obtain ⟨n, e⟩ := d
  unfold positional toRat
  dsimp only at hdigits hvalue hne ⊢
  generalize Nat.toDigits 10 n = digits at hdigits hvalue hne ⊢
  split
  · obtain ⟨k, rfl⟩ := Int.eq_ofNat_of_zero_le (show 0 ≤ e by omega)
    rw [String.toList_ofList, Int.toNat_natCast]
    exact reads_append_zeros hne hdigits hvalue k
  · split
    · rw [String.toList_ofList]
      exact reads_take_drop hdigits hvalue (by omega) (by omega)
    · rw [String.toList_ofList]
      exact reads_zeros_append hne hdigits hvalue (by omega) (by omega)

end Decimal

end LoxLang
