import Mathlib
import Stepwise.Decimal.Binary

/-!
# The bits of a float

A float is its bits: `ofBits_toBits`.  A finite one is a sign and a number `m * 2 ^ e`, where `m`
has 53 bits unless the exponent is the least one (`Canonical`); the bits of the number are
`magnitudeBits m e`, and `eq_ofMagnitude` puts the float together from them.
-/

namespace Stepwise.Decimal

open Float.Model Float.Model.UnpackedFloat

/-! ## Packing -/

section Packing

variable {S : Format}

theorem toBitVec_ofBitVec (b : BitVec 1) : (Sign.ofBitVec b).toBitVec = b := by
  revert b
  decide

theorem toNat_unpackSign (b : BitVec S.numBits) :
    (unpackSign b).toNat =
      b.toNat / 2 ^ S.mantissaBitsWithoutImplicit / 2 ^ S.exponentBits := by
  have high : b.toNat / 2 ^ (S.mantissaBitsWithoutImplicit + S.exponentBits) < 2 := by
    rw [Nat.div_lt_iff_lt_mul (by positivity)]
    calc b.toNat < 2 ^ S.numBits := b.isLt
      _ = 2 * 2 ^ (S.mantissaBitsWithoutImplicit + S.exponentBits) := by
        rw [Format.numBits]
        ring
  rw [unpackSign, BitVec.toNat_cast, BitVec.extractLsb_toNat, Nat.shiftRight_eq_div_pow,
    Nat.div_div_eq_div_mul, ← pow_add, Nat.sub_self, Nat.mod_eq_of_lt (by simpa using high)]

theorem toNat_unpackExponent (b : BitVec S.numBits) :
    (unpackExponent b).toNat =
      b.toNat / 2 ^ S.mantissaBitsWithoutImplicit % 2 ^ S.exponentBits := by
  have := S.he
  rw [unpackExponent, BitVec.toNat_cast, BitVec.extractLsb_toNat, Nat.shiftRight_eq_div_pow]
  congr 2
  omega

theorem toNat_unpackMantissa (b : BitVec S.numBits) :
    (unpackMantissa b).toNat = b.toNat % 2 ^ S.mantissaBitsWithoutImplicit := by
  have := S.hm
  rw [unpackMantissa, BitVec.toNat_cast, BitVec.extractLsb_toNat, Nat.shiftRight_zero]
  congr 2
  omega

/-- The parts of a bit pattern give it back. -/
theorem packComponents_parts (b : BitVec S.numBits) :
    packComponents S (Sign.ofBitVec (unpackSign b)) (unpackExponent b) (unpackMantissa b) = b := by
  apply BitVec.eq_of_toNat_eq
  rw [packComponents, BitVec.toNat_append, BitVec.toNat_append,
    ← Nat.shiftLeft_add_eq_or_of_lt (unpackMantissa b).isLt,
    ← Nat.shiftLeft_add_eq_or_of_lt (unpackExponent b).isLt, Nat.shiftLeft_eq, Nat.shiftLeft_eq,
    toBitVec_ofBitVec, toNat_unpackSign, toNat_unpackExponent, toNat_unpackMantissa,
    Nat.div_add_mod', Nat.div_add_mod']

theorem pack_subnormal (wide : 1 < S.exponentBits) (sign : Sign)
    {mantissa : BitVec S.mantissaBitsWithoutImplicit} (pos : 0 < mantissa.toNat) :
    UnpackedFloat.pack S (.finite sign mantissa.toNat
      (-((S.exponentBias : Int) + S.mantissaBitsWithoutImplicit) + 1) pos) =
      packComponents S sign 0 mantissa := by
  have hlog : mantissa.toNat.log2 < S.mantissaBitsWithoutImplicit := by
    rw [Nat.log2_lt pos.ne']
    exact mantissa.isLt
  have hwide : 2 < 2 ^ S.exponentBits := Nat.pow_lt_pow_right one_lt_two wide
  have hexp : (-((S.exponentBias : Int) + S.mantissaBitsWithoutImplicit) + 1 + S.exponentBias +
      S.mantissaBitsWithoutImplicit).toNat = 1 := by omega
  simp only [UnpackedFloat.pack, hexp]
  rw [if_neg (by omega), if_neg (by rw [Format.mantissaBits]; omega), BitVec.ofNat_toNat,
    BitVec.setWidth_eq]
  rfl

theorem pack_normal (sign : Sign) {exponent : BitVec S.exponentBits}
    (finite : exponent.toNat + 1 < 2 ^ S.exponentBits)
    (mantissa : BitVec S.mantissaBitsWithoutImplicit) (pos : 0 < (1#1 ++ mantissa).toNat) :
    UnpackedFloat.pack S (.finite sign (1#1 ++ mantissa).toNat
      (exponent.toNat - ((S.exponentBias : Int) + S.mantissaBitsWithoutImplicit)) pos) =
      packComponents S sign exponent mantissa := by
  have hm := mantissa.isLt
  have happ : (1#1 ++ mantissa).toNat = 2 ^ S.mantissaBitsWithoutImplicit + mantissa.toNat := by
    rw [BitVec.toNat_append, ← Nat.shiftLeft_add_eq_or_of_lt hm, Nat.shiftLeft_eq]
    simp
  have hlog : (2 ^ S.mantissaBitsWithoutImplicit + mantissa.toNat).log2 =
      S.mantissaBitsWithoutImplicit := by
    rw [Nat.log2_eq_iff (by positivity), pow_succ]
    omega
  have hexp : (exponent.toNat - ((S.exponentBias : Int) + S.mantissaBitsWithoutImplicit) +
      S.exponentBias + S.mantissaBitsWithoutImplicit).toNat = exponent.toNat := by omega
  have hmantissa : BitVec.ofNat S.mantissaBitsWithoutImplicit
      (2 ^ S.mantissaBitsWithoutImplicit + mantissa.toNat) = mantissa := by
    apply BitVec.eq_of_toNat_eq
    rw [BitVec.toNat_ofNat, Nat.add_mod_left, Nat.mod_eq_of_lt hm]
  simp only [UnpackedFloat.pack, happ, hlog, hexp]
  rw [if_neg (by omega), if_pos (by rw [Format.mantissaBits]; omega), hmantissa,
    BitVec.ofNat_toNat, BitVec.setWidth_eq]

theorem pack_unpack (wide : 1 < S.exponentBits) {b : BitVec S.numBits} (valid : S.Valid b) :
    UnpackedFloat.pack S (UnpackedFloat.unpack S b) = b := by
  have whole := packComponents_parts b
  unfold UnpackedFloat.unpack
  simp only
  split
  · next infinite =>
    split
    · next zero =>
      rw [infinite, zero] at whole
      exact whole
    · next nonzero => exact (valid.eq_packedNaN infinite nonzero).symm
  · next finite =>
    split
    · next small =>
      split
      · next zero =>
        rw [small, zero] at whole
        exact whole
      · next nonzero =>
        rw [small] at whole
        simp only [small, BitVec.toNat_zero, Nat.cast_zero, zero_sub]
        rw [pack_subnormal wide]
        exact whole
    · next large =>
      rw [pack_normal]
      · exact whole
      · refine lt_of_le_of_ne (unpackExponent b).isLt fun h => finite (BitVec.eq_of_toNat_eq ?_)
        rw [BitVec.neg_one_eq_allOnes, BitVec.toNat_allOnes]
        omega

end Packing

theorem ofBits_toBits (x : Float) : Float.ofBits x.toBits = x := by
  obtain ⟨⟨bits, valid⟩⟩ := x
  unfold Float.ofBits Float.toBits Float.Model.ofBits Float.Model.pack
  congr 2
  exact congrArg UInt64.ofBitVec (pack_unpack (by decide) valid)

/-! ## Finite floats -/

/-- The parts of a finite float: the mantissa has 53 bits unless the exponent is the least. -/
structure Canonical (m : Nat) (e : Int) : Prop where
  small : m < 2 ^ 53
  low : -1074 ≤ e
  high : e ≤ 971
  normal : e = -1074 ∨ 2 ^ 52 ≤ m

/-- The bits of `m * 2 ^ e`. -/
def magnitudeBits (m : Nat) (e : Int) : Nat :=
  (e + 1074).toNat * 2 ^ 52 + m

theorem ofMagnitude_parts (x : Float) :
    ofMagnitude (decide (2 ^ 63 ≤ x.toBits.toNat))
      (x.toBits.toNat / 2 ^ 52 % 2 ^ 11 * 2 ^ 52 + x.toBits.toNat % 2 ^ 52) = x := by
  have hbits : x.toBits.toNat < 2 ^ 64 := x.toBits.toNat_lt
  have whole : (if decide (2 ^ 63 ≤ x.toBits.toNat) = true then
      Nat.pow 2 63 + (x.toBits.toNat / 2 ^ 52 % 2 ^ 11 * 2 ^ 52 + x.toBits.toNat % 2 ^ 52)
      else x.toBits.toNat / 2 ^ 52 % 2 ^ 11 * 2 ^ 52 + x.toBits.toNat % 2 ^ 52) =
      x.toBits.toNat := by
    simp only [decide_eq_true_eq, Nat.pow_eq]
    split <;> omega
  rw [ofMagnitude, whole, UInt64.ofNat_toNat, ofBits_toBits]

/-- A finite float is put together from its parts. -/
theorem eq_ofMagnitude {x : Float} {negative : Bool} {m : Nat} {e : Int}
    (h : decode x = .finite negative m e) :
    Canonical m e ∧ x = ofMagnitude negative (magnitudeBits m e) := by
  have parts := ofMagnitude_parts x
  unfold decode at h
  simp only [Nat.pow_eq] at h
  split at h
  · split at h <;> cases h
  · next finite =>
    rw [beq_iff_eq] at finite
    split at h
    · next zero =>
      rw [beq_iff_eq] at zero
      obtain ⟨rfl, rfl, rfl⟩ := Decoded.finite.inj h
      refine ⟨⟨by omega, by omega, by omega, Or.inl rfl⟩, ?_⟩
      have same : magnitudeBits (x.toBits.toNat % 2 ^ 52) (-1074) =
          x.toBits.toNat / 2 ^ 52 % 2 ^ 11 * 2 ^ 52 + x.toBits.toNat % 2 ^ 52 := by
        rw [magnitudeBits, zero]
        rfl
      rw [same, parts]
    · next nonzero =>
      rw [beq_iff_eq] at nonzero
      obtain ⟨rfl, rfl, rfl⟩ := Decoded.finite.inj h
      refine ⟨⟨by omega, by omega, by omega, Or.inr (by omega)⟩, ?_⟩
      have same : magnitudeBits (2 ^ 52 + x.toBits.toNat % 2 ^ 52)
          ((x.toBits.toNat / 2 ^ 52 % 2 ^ 11 : ℕ) - 1075) =
          x.toBits.toNat / 2 ^ 52 % 2 ^ 11 * 2 ^ 52 + x.toBits.toNat % 2 ^ 52 := by
        rw [magnitudeBits]
        omega
      rw [same, parts]

end Stepwise.Decimal
