import Mathlib.Algebra.Order.Field.Power
import Mathlib.Data.Nat.Cast.Order.Field
import Mathlib.Data.Rat.Cast.Order
import Mathlib.Tactic.Linarith
import Mathlib.Tactic.NormNum
import Mathlib.Tactic.Positivity
import Stepwise.Proofs.Decimal.Bits

/-!
# The value of a float

A finite float stands for a rational number (`value?`), and what is above zero of it is cut off to
the floor of the number (`truncate?_above_zero`).  The operations on floats take their arguments
apart and put the result together again; `Stands` is the value of a float in parts, and
`stands_unpack` and `value?_ofParts` say that neither changes it.
-/

namespace Stepwise.Decimal

open Float.Model Float.Model.UnpackedFloat

/-- The number that a finite float stands for. -/
def value? (x : Float) : Option ℚ :=
  match decode x with
  | .finite negative m e => some ((if negative then -1 else 1) * (m * 2 ^ e))
  | _ => none

theorem abs_lt_of_value? {x : Float} {v : ℚ} (value : value? x = some v) :
    |v| < 2 ^ (1024 : ℤ) := by
  unfold value? at value
  split at value
  · next negative m e parts =>
    obtain ⟨⟨small, -, high, -⟩, -⟩ := eq_ofMagnitude parts
    have size : |v| = m * 2 ^ e := by
      rw [← Option.some.inj value, abs_mul, abs_of_nonneg (show (0 : ℚ) ≤ m * 2 ^ e by positivity)]
      cases negative <;> simp
    calc |v| = m * 2 ^ e := size
      _ < 2 ^ (53 : ℤ) * 2 ^ e := by
        gcongr
        exact_mod_cast small
      _ = 2 ^ (53 + e) := by rw [zpow_add₀ two_ne_zero]
      _ ≤ 2 ^ (1024 : ℤ) := zpow_le_zpow_right₀ one_le_two (by omega)
  · cases value

/-- What is above zero of a float that is cut off is the floor of its value. -/
theorem truncate?_above_zero (x : Float) :
    (truncate? x).map (max 0) = (value? x).map fun v => max 0 ⌊v⌋ := by
  unfold truncate? value?
  cases decode x with
  | nan | infinite => rfl
  | finite negative m e =>
    obtain ⟨size, hsize⟩ : ∃ size : ℕ, size =
        if 0 ≤ e then m * Nat.pow 2 e.toNat else m / Nat.pow 2 (-e).toNat := ⟨_, rfl⟩
    have floor : ⌊(m * 2 ^ e : ℚ)⌋ = size := by
      rw [hsize]
      split
      · next whole =>
        obtain ⟨k, rfl⟩ := Int.eq_ofNat_of_zero_le whole
        rw [zpow_natCast]
        exact_mod_cast Int.floor_natCast (m * 2 ^ k)
      · next part =>
        obtain ⟨k, rfl⟩ : ∃ k : ℕ, e = -k := ⟨(-e).toNat, by omega⟩
        rw [neg_neg, Int.toNat_natCast, zpow_neg, zpow_natCast, ← div_eq_mul_inv]
        have quotient := Rat.floor_intCast_div_natCast m (2 ^ k)
        rw [Nat.pow_eq]
        push_cast at quotient ⊢
        exact quotient
    simp only [← hsize, Option.map_some]
    cases negative with
    | false => simp [floor]
    | true =>
      have below : ⌊(-1 * (m * 2 ^ e) : ℚ)⌋ ≤ 0 := by
        refine Int.floor_nonpos ?_
        rw [neg_one_mul, neg_nonpos]
        positivity
      simp only [if_true]
      rw [max_eq_left below, max_eq_left (by omega)]

/-- Cutting off a float above zero makes it no larger. -/
theorem le_of_truncate? {x : Float} {n : Int} {v : ℚ} (cut : truncate? x = some n)
    (value : value? x = some v) : (n : ℚ) ≤ max 0 v := by
  have floor := truncate?_above_zero x
  rw [cut, value] at floor
  have same : max 0 n = max 0 ⌊v⌋ := Option.some.inj floor
  calc (n : ℚ) ≤ ((max 0 n : ℤ) : ℚ) := by exact_mod_cast le_max_right 0 n
    _ = max 0 (⌊v⌋ : ℚ) := by
      rw [same]
      push_cast
      rfl
    _ ≤ max 0 v := max_le_max le_rfl (Int.floor_le v)

/-! ## Floats in parts -/

/-- The factor of a sign. -/
def factor : Sign → ℚ
  | .negative => -1
  | .positive => 1

/-- A float in parts stands for a number, and its parts are those of a finite float. -/
def Stands : UnpackedFloat → ℚ → Prop
  | .zero _, q => q = 0
  | .finite sign m e _, q => Canonical m e ∧ q = factor sign * (m * 2 ^ e)
  | _, _ => False

/-- The sign of a float. -/
def signOf (negative : Bool) : Sign := if negative then .negative else .positive

theorem factor_signOf (negative : Bool) :
    factor (signOf negative) = if negative then -1 else 1 := by
  cases negative <;> rfl

theorem signOf_unpackSign (b : BitVec Format.binary64.numBits) :
    Sign.ofBitVec (unpackSign b) = signOf (decide (2 ^ 63 ≤ b.toNat)) := by
  have high := toNat_unpackSign (S := Format.binary64) b
  have bound : b.toNat < 2 ^ 64 := b.isLt
  by_cases large : 2 ^ 63 ≤ b.toNat
  · have one : @unpackSign Format.binary64 b = 1#1 := by
      apply BitVec.eq_of_toNat_eq
      rw [high]
      simp
      omega
    rw [one, decide_eq_true large]
    rfl
  · have zero : @unpackSign Format.binary64 b = 0#1 := by
      apply BitVec.eq_of_toNat_eq
      rw [high]
      simp
      omega
    rw [zero, decide_eq_false large]
    rfl

/-- The parts of a float, as the operations on floats take it apart. -/
def Decoded.parts : Decoded → UnpackedFloat
  | .nan => .notANumber
  | .infinite negative => .infinity (signOf negative)
  | .finite negative m e =>
    if pos : 0 < m then .finite (signOf negative) m e pos else .zero (signOf negative)

theorem finite_congr {s s' : Sign} {m m' : ℕ} {e e' : ℤ} {pos : 0 < m} {pos' : 0 < m'}
    (hs : s = s') (hm : m = m') (he : e = e') :
    UnpackedFloat.finite s m e pos = .finite s' m' e' pos' := by
  subst hs hm he
  rfl

theorem unpack_eq (x : Float) : x.toModel.unpack = (decode x).parts := by
  obtain ⟨⟨bits, valid⟩⟩ := x
  have sign := signOf_unpackSign bits.toBitVec
  have exponent := toNat_unpackExponent (S := Format.binary64) bits.toBitVec
  have mantissa := toNat_unpackMantissa (S := Format.binary64) bits.toBitVec
  change _ = bits.toNat / 2 ^ 52 % 2 ^ 11 at exponent
  change _ = bits.toNat % 2 ^ 52 at mantissa
  have full : @unpackExponent Format.binary64 bits.toBitVec = -1#11 ↔
      bits.toNat / 2 ^ 52 % 2 ^ 11 = 2047 := by
    rw [← exponent, ← BitVec.toNat_inj]
    rfl
  have least : @unpackExponent Format.binary64 bits.toBitVec = 0#11 ↔
      bits.toNat / 2 ^ 52 % 2 ^ 11 = 0 := by
    rw [← exponent, ← BitVec.toNat_inj]
    rfl
  have none : @unpackMantissa Format.binary64 bits.toBitVec = 0#52 ↔
      bits.toNat % 2 ^ 52 = 0 := by
    rw [← mantissa, ← BitVec.toNat_inj]
    rfl
  have leading : (1#1 ++ @unpackMantissa Format.binary64 bits.toBitVec).toNat =
      2 ^ 52 + bits.toNat % 2 ^ 52 := by
    rw [BitVec.toNat_append, ← Nat.shiftLeft_add_eq_or_of_lt (BitVec.isLt _), Nat.shiftLeft_eq,
      mantissa]
    rfl
  unfold Float.Model.unpack UnpackedFloat.unpack decode
  change _ = (if (bits.toNat / 2 ^ 52 % 2 ^ 11 == 2047) = true then
    if (bits.toNat % 2 ^ 52 == 0) = true then .infinite (decide (2 ^ 63 ≤ bits.toNat)) else .nan
    else if (bits.toNat / 2 ^ 52 % 2 ^ 11 == 0) = true then
      Decoded.finite (decide (2 ^ 63 ≤ bits.toNat)) (bits.toNat % 2 ^ 52) (-1074)
    else .finite (decide (2 ^ 63 ≤ bits.toNat)) (2 ^ 52 + bits.toNat % 2 ^ 52)
      ((bits.toNat / 2 ^ 52 % 2 ^ 11 : ℕ) - 1075)).parts
  simp only [beq_iff_eq]
  by_cases h : bits.toNat / 2 ^ 52 % 2 ^ 11 = 2047
  · rw [if_pos (full.2 h), if_pos h]
    by_cases h' : bits.toNat % 2 ^ 52 = 0
    · rw [if_pos (none.2 h'), if_pos h']
      exact congrArg UnpackedFloat.infinity sign
    · rw [if_neg (mt none.1 h'), if_neg h']
      rfl
  · rw [if_neg (mt full.1 h), if_neg h]
    by_cases h' : bits.toNat / 2 ^ 52 % 2 ^ 11 = 0
    · rw [if_pos (least.2 h'), if_pos h']
      by_cases h'' : bits.toNat % 2 ^ 52 = 0
      · rw [dif_pos (none.2 h''), Decoded.parts, dif_neg (by omega)]
        exact congrArg UnpackedFloat.zero sign
      · rw [dif_neg (mt none.1 h''), Decoded.parts, dif_pos (by omega)]
        refine finite_congr sign mantissa ?_
        change ((@unpackExponent Format.binary64 bits.toBitVec).toNat : ℤ) - 1075 + 1 = _
        rw [exponent, h']
        rfl
    · rw [if_neg (mt least.1 h'), if_neg h', Decoded.parts, dif_pos (by omega)]
      refine finite_congr sign leading ?_
      change ((@unpackExponent Format.binary64 bits.toBitVec).toNat : ℤ) - 1075 = _
      rw [exponent]

theorem stands_unpack {x : Float} {q : ℚ} (h : value? x = some q) : Stands x.toModel.unpack q := by
  rw [unpack_eq]
  unfold value? at h
  split at h
  · next negative m e parts =>
    obtain ⟨canonical, -⟩ := eq_ofMagnitude parts
    rw [parts, Decoded.parts, ← Option.some.inj h]
    by_cases pos : 0 < m
    · rw [dif_pos pos]
      exact ⟨canonical, by rw [factor_signOf]⟩
    · obtain rfl : m = 0 := by omega
      rw [dif_neg pos]
      simp [Stands]
  · cases h

/-! ## Putting a float together -/

theorem toNat_packComponents (sign : Sign) (exponent : BitVec 11) (mantissa : BitVec 52) :
    (packComponents Format.binary64 sign exponent mantissa).toNat =
      (sign.toBitVec.toNat * 2 ^ 11 + exponent.toNat) * 2 ^ 52 + mantissa.toNat := by
  rw [packComponents, BitVec.toNat_append, BitVec.toNat_append,
    ← Nat.shiftLeft_add_eq_or_of_lt mantissa.isLt, ← Nat.shiftLeft_add_eq_or_of_lt exponent.isLt,
    Nat.shiftLeft_eq, Nat.shiftLeft_eq]

/-- The float that is put together from parts. -/
def ofParts (u : UnpackedFloat) : Float := ⟨Float.Model.pack u⟩

theorem toNat_bits_ofParts (u : UnpackedFloat) :
    (ofParts u).toBits.toNat = (UnpackedFloat.pack Format.binary64 u).toNat := by
  unfold ofParts Float.toBits Float.Model.pack
  exact UInt64.toNat_ofBitVec

theorem toNat_toBitVec_signOf (negative : Bool) :
    (signOf negative).toBitVec.toNat = if negative then 1 else 0 := by
  cases negative <;> rfl

theorem exists_signOf (sign : Sign) : ∃ negative, sign = signOf negative := by
  cases sign with
  | negative => exact ⟨true, rfl⟩
  | positive => exact ⟨false, rfl⟩

/-- A finite float that is packed has its parts. -/
theorem decode_of_packComponents {u : UnpackedFloat} {negative : Bool} {exponent : BitVec 11}
    {mantissa : BitVec 52}
    (packed : UnpackedFloat.pack Format.binary64 u =
      packComponents Format.binary64 (signOf negative) exponent mantissa)
    (finite : exponent.toNat ≠ 2047) :
    decode (ofParts u) = if exponent.toNat = 0
      then .finite negative mantissa.toNat (-1074)
      else .finite negative (2 ^ 52 + mantissa.toNat) ((exponent.toNat : ℤ) - 1075) := by
  have bits : (ofParts u).toBits.toNat =
      ((if negative then 1 else 0) * 2 ^ 11 + exponent.toNat) * 2 ^ 52 + mantissa.toNat := by
    rw [toNat_bits_ofParts, packed, toNat_packComponents, toNat_toBitVec_signOf]
  have hm := mantissa.isLt
  have he := exponent.isLt
  have sign : decide (2 ^ 63 ≤ (ofParts u).toBits.toNat) = negative := by
    rw [bits]
    cases negative with
    | true => exact decide_eq_true (by simp only [if_true]; omega)
    | false => exact decide_eq_false (by simp only [Bool.false_eq_true, if_false]; omega)
  have field : (ofParts u).toBits.toNat / 2 ^ 52 % 2 ^ 11 = exponent.toNat := by
    rw [bits]
    omega
  have fraction : (ofParts u).toBits.toNat % 2 ^ 52 = mantissa.toNat := by
    rw [bits]
    omega
  unfold decode
  simp only [Nat.pow_eq, sign, field, fraction, beq_iff_eq]
  rw [if_neg finite]

theorem bias_eq : Format.binary64.exponentBias = 1023 := rfl

/-- A float with parts that a float can have is put together to have them. -/
theorem decode_ofParts {negative : Bool} {m : ℕ} {e : ℤ} (canonical : Canonical m e)
    (pos : 0 < m) :
    decode (ofParts (.finite (signOf negative) m e pos)) = .finite negative m e := by
  obtain ⟨small, low, high, normal⟩ := canonical
  by_cases large : 2 ^ 52 ≤ m
  · have exponent : (BitVec.ofNat 11 (e + 1075).toNat).toNat = (e + 1075).toNat := by
      rw [BitVec.toNat_ofNat, Nat.mod_eq_of_lt (by omega)]
    have mantissa : (BitVec.ofNat 52 (m - 2 ^ 52)).toNat = m - 2 ^ 52 := by
      rw [BitVec.toNat_ofNat, Nat.mod_eq_of_lt (by omega)]
    have leading : (1#1 ++ BitVec.ofNat 52 (m - 2 ^ 52)).toNat = m := by
      rw [BitVec.toNat_append, ← Nat.shiftLeft_add_eq_or_of_lt (BitVec.isLt _), Nat.shiftLeft_eq,
        mantissa]
      change 1 * 2 ^ 52 + _ = _
      omega
    have packed := @pack_normal Format.binary64 (signOf negative)
      (BitVec.ofNat 11 (e + 1075).toNat) (by rw [exponent]; change _ < 2 ^ 11; omega)
      (BitVec.ofNat 52 (m - 2 ^ 52)) (by rw [leading]; exact pos)
    have same : UnpackedFloat.finite (signOf negative) (1#1 ++ BitVec.ofNat 52 (m - 2 ^ 52)).toNat
        ((BitVec.ofNat 11 (e + 1075).toNat).toNat - (((1023 : ℕ) : ℤ) + (52 : ℕ)))
        (by rw [leading]; exact pos) = .finite (signOf negative) m e pos :=
      finite_congr rfl leading (by rw [exponent]; omega)
    rw [bias_eq, same] at packed
    have whole : 2 ^ 52 + (m - 2 ^ 52) = m := by omega
    have power : (((e + 1075).toNat : ℕ) : ℤ) - 1075 = e := by omega
    rw [decode_of_packComponents packed (by rw [exponent]; omega), exponent, mantissa,
      if_neg (by omega), whole, power]
  · obtain rfl : e = -1074 := normal.resolve_right large
    have mantissa : (BitVec.ofNat 52 m).toNat = m := by
      rw [BitVec.toNat_ofNat, Nat.mod_eq_of_lt (by omega)]
    have packed := @pack_subnormal Format.binary64 (by decide) (signOf negative)
      (BitVec.ofNat 52 m) (by rw [mantissa]; exact pos)
    have same : UnpackedFloat.finite (signOf negative) (BitVec.ofNat 52 m).toNat
        (-(((1023 : ℕ) : ℤ) + (52 : ℕ)) + 1) (by rw [mantissa]; exact pos) =
          .finite (signOf negative) m (-1074) pos := finite_congr rfl mantissa (by omega)
    rw [bias_eq, same] at packed
    rw [decode_of_packComponents packed (by decide), mantissa]
    rfl

theorem value?_ofParts {u : UnpackedFloat} {q : ℚ} (h : Stands u q) :
    value? (ofParts u) = some q := by
  cases u with
  | zero sign =>
    obtain ⟨negative, rfl⟩ := exists_signOf sign
    have parts := @decode_of_packComponents (.zero (signOf negative)) negative 0 0 rfl (by decide)
    rw [value?, parts, h]
    cases negative <;> simp
  | finite sign m e pos =>
    obtain ⟨canonical, rfl⟩ := h
    obtain ⟨negative, rfl⟩ := exists_signOf sign
    rw [value?, decode_ofParts canonical pos, factor_signOf]
  | infinity sign => cases h
  | notANumber => cases h

end Stepwise.Decimal
