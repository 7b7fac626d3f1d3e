import LoxLang.Proofs.Decimals
import LoxLang.Token.Scan

/-!
# The numbers of a program

A number that is not negative is told by its text (`Decimal.ofFloat_inj`), which is a numeral unless
the number is infinite. The numbers that are written in a program are of this kind
(`Decimal.unsigned_numeralValue`), because rounding and packing keep the sign and make nothing that
is no number.
-/

namespace LoxLang

namespace Decimal

open Float.Model Float.Model.UnpackedFloat

/-- The sign of what is a number. -/
def sign? : UnpackedFloat → Option Sign
  | .zero s | .infinity s | .finite s .. => some s
  | .notANumber => none

/-- The number is one, and it is not negative. -/
def Unsigned (x : Float) : Prop := sign? x.toModel.unpack = some .positive

variable {x y : Float}

/-- Numbers are told apart by their bits. -/
theorem eq_of_toBits_eq (h : x.toBits = y.toBits) : x = y := by
  obtain ⟨⟨bits, hbits⟩⟩ := x
  obtain ⟨⟨bits', hbits'⟩⟩ := y
  obtain rfl : bits = bits' := h
  rfl

theorem Unsigned.isNaN (h : Unsigned x) : x.isNaN = false := by
  unfold Float.isNaN Float.Model.isNaN
  unfold Unsigned at h
  cases hx : x.toModel.unpack with
  | notANumber => rw [hx] at h; cases h
  | _ => rfl

/-- What bits are unpacked as. The sign is that of the sign bit, and the exponent tells what is
infinite or no number. -/
theorem unpack_cases {spec : Format} (b : BitVec spec.numBits) :
    (UnpackedFloat.unpack spec b = .infinity (Sign.ofBitVec (unpackSign b)) ∧
        unpackExponent b = -1#_ ∧ unpackMantissa b = 0#_) ∨
      (UnpackedFloat.unpack spec b = .notANumber ∧
        unpackExponent b = -1#_ ∧ unpackMantissa b ≠ 0#_) ∨
      UnpackedFloat.unpack spec b = .zero (Sign.ofBitVec (unpackSign b)) ∨
      ∃ m e hm, UnpackedFloat.unpack spec b = .finite (Sign.ofBitVec (unpackSign b)) m e hm := by
  unfold UnpackedFloat.unpack
  dsimp only
  by_cases hexponent : unpackExponent b = -1#_
  · rw [if_pos hexponent]
    by_cases hmantissa : unpackMantissa b = 0#_
    · exact .inl ⟨if_pos hmantissa, hexponent, hmantissa⟩
    · exact .inr (.inl ⟨if_neg hmantissa, hexponent, hmantissa⟩)
  · rw [if_neg hexponent]
    by_cases hzero : unpackExponent b = 0#_
    · rw [if_pos hzero]
      by_cases hmantissa : unpackMantissa b = 0#_
      · exact .inr (.inr (.inl (dif_pos hmantissa)))
      · have hpos := (BitVec.toNat_pos _).2 ((BitVec.pos_iff_ne_zero _).2 hmantissa)
        exact .inr (.inr (.inr ⟨_, _, hpos, dif_neg hmantissa⟩))
    · exact .inr (.inr (.inr ⟨_, _, by simp, if_neg hzero⟩))

theorem ofBitVec_of_sign?_unpack {b : BitVec 64} {s : Sign}
    (h : sign? (UnpackedFloat.unpack Format.binary64 b) = some s) :
    Sign.ofBitVec (@unpackSign Format.binary64 b) = s := by
  rcases @unpack_cases Format.binary64 b with ⟨hb, -⟩ | ⟨hb, -⟩ | hb | ⟨m, e, hm, hb⟩ <;>
    rw [hb] at h
  · exact Option.some.inj h
  · cases h
  · exact Option.some.inj h
  · exact Option.some.inj h

/-- The sign bit of a number that is not negative is not set. -/
theorem Unsigned.toBits_lt (h : Unsigned x) : x.toBits.toNat < 2 ^ 63 := by
  have hsign := ofBitVec_of_sign?_unpack h
  have hbit : @unpackSign Format.binary64 x.toModel.toBits.toBitVec = 0#1 := by
    unfold Sign.ofBitVec at hsign
    split at hsign
    · assumption
    · cases hsign
  have hnat := congrArg BitVec.toNat hbit
  change (BitVec.cast _ (BitVec.extractLsb _ _ x.toModel.toBits.toBitVec)).toNat = 0 at hnat
  rw [BitVec.toNat_cast, BitVec.extractLsb_toNat, Nat.shiftRight_eq_div_pow] at hnat
  have hlt := x.toBits.toNat_lt
  show x.toModel.toBits.toBitVec.toNat < 2 ^ 63
  change x.toModel.toBits.toBitVec.toNat < 2 ^ 64 at hlt
  change x.toModel.toBits.toBitVec.toNat / 2 ^ 63 % 2 ^ 1 = 0 at hnat
  omega

/-- There is one infinite number that is not negative. -/
theorem toBits_of_isInf (h : Unsigned x) (hinf : x.isInf = true) :
    x.toBits.toNat = 2047 * 2 ^ 52 := by
  have hlt := h.toBits_lt
  unfold Float.isInf Float.Model.isInf at hinf
  rcases @unpack_cases Format.binary64 x.toModel.toBits.toBitVec with
    ⟨-, hexponent, hmantissa⟩ | ⟨hb, -⟩ | hb | ⟨m, e, hm, hb⟩
  · have hexponent := congrArg BitVec.toNat hexponent
    have hmantissa := congrArg BitVec.toNat hmantissa
    unfold unpackExponent at hexponent
    unfold unpackMantissa at hmantissa
    rw [BitVec.toNat_cast, BitVec.extractLsb_toNat, Nat.shiftRight_eq_div_pow] at hexponent
    rw [BitVec.toNat_cast, BitVec.extractLsb_toNat, Nat.shiftRight_eq_div_pow] at hmantissa
    change x.toModel.toBits.toBitVec.toNat / 2 ^ 52 % 2 ^ 11 = 2047 at hexponent
    change x.toModel.toBits.toBitVec.toNat / 2 ^ 0 % 2 ^ 52 = 0 at hmantissa
    change x.toModel.toBits.toBitVec.toNat < 2 ^ 63 at hlt
    show x.toModel.toBits.toBitVec.toNat = 2047 * 2 ^ 52
    omega
  all_goals
    rw [show x.toModel.unpack = _ from hb] at hinf
    cases hinf

/-- The text of a number that is not negative. -/
theorem ofFloat_of_unsigned (h : Unsigned x) : ofFloat x =
    if x.isInf then "inf"
    else if x.toBits.toNat = 0 then "0" else (roundingOfBits x.toBits).shortest.positional := by
  have hlt := h.toBits_lt
  have hsign : x.toBits >>> 63 = 0 := by
    rw [← UInt64.toNat_inj, UInt64.toNat_shiftRight, Nat.shiftRight_eq_div_pow]
    exact Nat.div_eq_of_lt hlt
  have hrest : x.toBits &&& 0x7FFFFFFFFFFFFFFF = x.toBits := by
    rw [← UInt64.toNat_inj, UInt64.toNat_and]
    exact (Nat.and_two_pow_sub_one_eq_mod _ 63).trans (Nat.mod_eq_of_lt hlt)
  have hzero : x.toBits = 0 ↔ x.toBits.toNat = 0 := UInt64.toNat_inj.symm
  unfold ofFloat
  dsimp only
  rw [h.isNaN, hsign, hrest]
  simp only [hzero, if_true, String.empty_append, Bool.false_eq_true, if_false]

/-- The number that the text of a finite number reads as is rounded to it. -/
theorem exists_reads_ofFloat (h : Unsigned x) (hfinite : x.isInf = false) :
    ∃ q, Reads (ofFloat x).toList q ∧
      if x.toBits.toNat = 0 then q = 0 else Within x.toBits.toNat q := by
  rw [ofFloat_of_unsigned h, hfinite, if_neg Bool.false_ne_true]
  split
  · exact ⟨0, ⟨['0'], [], by simp, by simp, rfl, by simp [Nat.ofDigitChars]⟩, rfl⟩
  · rename_i hpos
    have hwide := wide_roundingOfBits h.toBits_lt (Nat.pos_of_ne_zero hpos)
    have hholds := Rounding.accepts_iff.1 (Rounding.accepts_shortest hwide)
    exact ⟨_, reads_positional _, within_of_holds h.toBits_lt (Nat.pos_of_ne_zero hpos) hholds⟩

/-- A numeral begins with a digit. -/
theorem Reads.digit {cs : List Char} {q : ℚ} (h : Reads cs q) :
    ∃ c ds, cs = c :: ds ∧ c.isDigit = true := by
  obtain ⟨whole, part, hwhole, hdigits, rfl, -⟩ := h
  obtain ⟨c, ds, rfl⟩ := List.exists_cons_of_ne_nil hwhole
  exact ⟨c, _, rfl, hdigits c List.mem_cons_self⟩

theorem lowEnd_pos {n : Nat} (h : n ≠ 0) : 0 < lowEnd n := by
  have hgap := highEnd_le_lowEnd (Nat.pos_of_ne_zero h)
  have hpos := lowEnd_lt_highEnd 0
  omega

/-- **A number is told by its text.** -/
theorem ofFloat_inj (hx : Unsigned x) (hy : Unsigned y) (h : ofFloat x = ofFloat y) : x = y := by
  apply eq_of_toBits_eq
  rw [← UInt64.toNat_inj]
  have hinf {z : Float} (hz : Unsigned z) (hzinf : z.isInf = true) :
      (ofFloat z).toList = ['i', 'n', 'f'] := by
    rw [ofFloat_of_unsigned hz, hzinf, if_pos rfl]
    rfl
  have hne {z : Float} (hz : Unsigned z) (hzinf : z.isInf = false) :
      (ofFloat z).toList ≠ ['i', 'n', 'f'] := by
    obtain ⟨q, hq, -⟩ := exists_reads_ofFloat hz hzinf
    obtain ⟨c, ds, hcs, hc⟩ := hq.digit
    rintro htext
    obtain rfl := (List.cons.inj (hcs.symm.trans htext)).1
    cases hc
  cases hxinf : x.isInf with
  | true =>
    cases hyinf : y.isInf with
    | true => rw [toBits_of_isInf hx hxinf, toBits_of_isInf hy hyinf]
    | false => exact absurd (h ▸ hinf hx hxinf) (hne hy hyinf)
  | false =>
    cases hyinf : y.isInf with
    | true => exact absurd (h ▸ hinf hy hyinf) (hne hx hxinf)
    | false =>
      obtain ⟨q, hq, hqx⟩ := exists_reads_ofFloat hx hxinf
      obtain ⟨q', hq', hqy⟩ := exists_reads_ofFloat hy hyinf
      obtain rfl := hq.unique (h ▸ hq')
      have hzero {n : Nat} (hn : n ≠ 0) (h : Within n 0) : False := by
        have hle := h.bounds.1
        rw [zero_mul] at hle
        exact absurd (Nat.cast_pos.2 (lowEnd_pos hn)) (not_lt.2 hle)
      split at hqx <;> split at hqy
      · omega
      · rename_i hn
        exact (hzero hn (hqx ▸ hqy)).elim
      · rename_i hn _
        exact (hzero hn (hqy ▸ hqx)).elim
      · exact eq_of_within hqx hqy

/-! ### Numerals -/

/-- What is packed with a sign has this sign. -/
theorem unpackSign_packComponents {spec : Format} (s : Sign) (e : BitVec spec.exponentBits)
    (m : BitVec spec.mantissaBitsWithoutImplicit) :
    unpackSign (packComponents spec s e m) = s.toBitVec := by
  ext i hi
  obtain rfl : i = 0 := by omega
  show (BitVec.cast _ (BitVec.extractLsb _ _ (packComponents spec s e m)))[0] = s.toBitVec[0]
  simp [packComponents, BitVec.getLsbD_append, BitVec.getElem_append]

/-- What is packed as positive is unpacked as positive, unless it is no number. -/
theorem sign?_unpack_packComponents {spec : Format} {e : BitVec spec.exponentBits}
    {m : BitVec spec.mantissaBitsWithoutImplicit} (h : e = -1#_ → m = 0#_) :
    sign? (UnpackedFloat.unpack spec (packComponents spec .positive e m)) = some .positive := by
  have hsign := congrArg Sign.ofBitVec (unpackSign_packComponents .positive e m)
  rcases unpack_cases (packComponents spec .positive e m) with
    ⟨hb, -⟩ | ⟨-, hexponent, hmantissa⟩ | hb | ⟨_, _, _, hb⟩
  · exact hb ▸ congrArg some hsign
  · rw [unpackExponent_packComponents] at hexponent
    rw [unpackMantissa_packComponents] at hmantissa
    exact (hmantissa (h hexponent)).elim
  · exact hb ▸ congrArg some hsign
  · exact hb ▸ congrArg some hsign

/-- What is not negative is so after packing. -/
theorem sign?_unpack_pack {spec : Format} {u : UnpackedFloat} (h : sign? u = some .positive) :
    sign? (UnpackedFloat.unpack spec (UnpackedFloat.pack spec u)) = some .positive := by
  have hzero {m : BitVec spec.mantissaBitsWithoutImplicit} :
      BitVec.ofNat spec.exponentBits 0 = -1#_ → m = 0#_ := by
    intro he
    have hnat := congrArg BitVec.toNat he
    have hpow := Nat.pow_lt_pow_right (a := 2) (by decide) spec.he
    rw [BitVec.neg_one_eq_allOnes, BitVec.toNat_allOnes, BitVec.toNat_ofNat, Nat.zero_mod] at hnat
    omega
  unfold UnpackedFloat.pack
  cases u with
  | notANumber => cases h
  | infinity s =>
    obtain rfl := Option.some.inj h
    exact sign?_unpack_packComponents fun _ ↦ rfl
  | zero s =>
    obtain rfl := Option.some.inj h
    exact sign?_unpack_packComponents fun _ ↦ rfl
  | finite s m e hm =>
    obtain rfl := Option.some.inj h
    dsimp only
    split
    · exact sign?_unpack_packComponents fun _ ↦ rfl
    · split
      · rename_i hbound _
        refine sign?_unpack_packComponents fun he ↦ ?_
        have hnat := congrArg BitVec.toNat he
        rw [BitVec.neg_one_eq_allOnes, BitVec.toNat_allOnes, BitVec.toNat_ofNat,
          Nat.mod_eq_of_lt (by omega)] at hnat
        omega
      · exact sign?_unpack_packComponents hzero

/-- What is positive is so after rounding. -/
theorem sign?_roundWithAccuracy (spec : Format) (m : Nat) (e : Int) (a : Accuracy) :
    sign? (roundWithAccuracy spec .positive m e a) = some .positive := by
  unfold roundWithAccuracy
  dsimp only
  rw [apply_dite sign?]
  exact dite_eq_ite.trans (ite_self _)

/-- A natural number is not negative. -/
theorem sign?_ofNat (spec : Format) (n : Nat) :
    sign? (UnpackedFloat.ofNat spec n) = some .positive := by
  unfold UnpackedFloat.ofNat UnpackedFloat.ofInt UnpackedFloat.normalize
  split
  · rename_i hlt
    rw [Int.compare_eq_lt] at hlt
    omega
  · rfl
  · exact sign?_roundWithAccuracy ..

/-- Whether the number is finite and greater than zero. -/
def isPositive : UnpackedFloat → Bool
  | .finite .positive .. => true
  | _ => false

/-- A quotient of positive numbers is positive. -/
theorem sign?_div {spec : Format} {u v : UnpackedFloat} (hu : sign? u = some .positive)
    (hv : isPositive v = true) : sign? (UnpackedFloat.div spec u v) = some .positive := by
  cases v with
  | notANumber | infinity | zero => cases hv
  | finite s =>
    cases s with
    | negative => cases hv
    | positive =>
      cases u with
      | notANumber => cases hu
      | infinity | zero =>
        obtain rfl := Option.some.inj hu
        rfl
      | finite =>
        obtain rfl := Option.some.inj hu
        exact sign?_roundWithAccuracy ..

/-- What a numeral is rounded to is not negative. -/
theorem sign?_ofScientific (spec : Format) (m : Nat) (e : Int) :
    sign? (UnpackedFloat.ofScientific spec m e) = some .positive := by
  unfold UnpackedFloat.ofScientific
  by_cases hzero : m = 0
  · rw [dif_pos hzero]
    rfl
  rw [dif_neg hzero]
  by_cases hlarge : e > 2 ^ spec.exponentBits
  · rw [if_pos hlarge]
    rfl
  rw [if_neg hlarge]
  by_cases hsmall : e < -((2 ^ spec.exponentBits : Int) + m.log2)
  · rw [if_pos hsmall]
    rfl
  rw [if_neg hsmall]
  by_cases hwhole : 0 ≤ e
  · rw [if_pos hwhole]
    exact sign?_roundWithAccuracy ..
  · rw [if_neg hwhole]
    exact sign?_roundWithAccuracy ..

/-- The powers of ten in the table are positive. -/
theorem isPositive_powersOfTen (i : Nat) (hi : i < Float.exactlyRepresentablePowersOfTen.size) :
    isPositive Float.exactlyRepresentablePowersOfTen[i].toModel.unpack = true := by
  revert i
  decide +kernel

/-- A numeral is a number. -/
theorem unsigned_numeralValue (cs : List Char) : Unsigned (numeralValue cs) := by
  unfold numeralValue Float.ofScientific
  split
  · exact sign?_unpack_pack (sign?_div (sign?_unpack_pack (sign?_ofNat ..))
      (isPositive_powersOfTen _ _))
  · exact sign?_unpack_pack (sign?_ofScientific ..)

end Decimal

end LoxLang
