import Mathlib.Tactic.FieldSimp
import Mathlib.Tactic.Ring
import Stepwise.Proofs.Decimal.Rounding
import Stepwise.Proofs.Decimal.Value

/-!
# The error of an operation on floats

The exact result of an operation is a mantissa with two residual bits, which say how far the number
lies above it (`Shows`).  Shifting keeps that, and rounding goes to the nearer side, so an operation
on floats is off by half a unit in the last place at most (`Near`).  The errors of several
operations add up (`Within.add`, `Within.sub`, `Within.mul` and `Within.div`), and an integer of 53
digits has none (`value?_ofInt`).
-/

namespace Stepwise.Decimal

open Float.Model Float.Model.UnpackedFloat

/-! ## Mantissas with residual bits -/

/-- A number is the mantissa or lies above it by less than one, as the residual bits say. -/
def Shows (em : ExtendedMantissa) (x : ℚ) : Prop :=
  match em.roundBit, em.stickyBit with
  | false, false => x = em.mantissa
  | false, true => em.mantissa < x ∧ x < em.mantissa + 1 / 2
  | true, false => x = em.mantissa + 1 / 2
  | true, true => em.mantissa + 1 / 2 < x ∧ x < em.mantissa + 1

namespace Shows

variable {em : ExtendedMantissa} {x : ℚ}

theorem bounds (h : Shows em x) : (em.mantissa : ℚ) ≤ x ∧ x < em.mantissa + 1 := by
  obtain ⟨m, r, s⟩ := em
  cases r <;> cases s <;> simp only [Shows] at h ⊢ <;> constructor <;> linarith

/-- Rounding goes to the mantissa or the next one, whichever is nearer. -/
theorem rounded (h : Shows em x) :
    |(em.roundedMantissa : ℚ) - x| ≤ 1 / 2 ∧ em.mantissa ≤ em.roundedMantissa ∧
      em.roundedMantissa ≤ em.mantissa + 1 := by
  obtain ⟨m, r, s⟩ := em
  cases r <;> cases s <;>
    simp only [Shows, ExtendedMantissa.roundedMantissa, ExtendedMantissa.accuracy,
      Accuracy.roundToNearestEven] at h ⊢
  · exact ⟨by rw [h]; norm_num, le_refl _, Nat.le_succ _⟩
  · exact ⟨abs_le.2 ⟨by linarith, by linarith⟩, le_refl _, Nat.le_succ _⟩
  · have parity : m % 2 = 0 ∨ m % 2 = 1 := by omega
    refine ⟨?_, by omega, by omega⟩
    rcases parity with even | odd
    · rw [even, h]
      norm_num [abs_le]
    · rw [odd, h]
      push_cast
      norm_num [abs_le]
  · push_cast
    exact ⟨abs_le.2 ⟨by linarith, by linarith⟩, Nat.le_succ _, le_refl _⟩

theorem half (h : Shows em x) : Shows em.shiftRightOne (x / 2) := by
  obtain ⟨m, r, s⟩ := em
  obtain ⟨q, hq⟩ : ∃ q, q = m / 2 := ⟨_, rfl⟩
  have parity : m = 2 * q ∧ (m % 2 != 0) = false ∨ m = 2 * q + 1 ∧ (m % 2 != 0) = true := by
    rcases Nat.mod_two_eq_zero_or_one m with even | odd
    · exact .inl ⟨by omega, by simp [even]⟩
    · exact .inr ⟨by omega, by simp [odd]⟩
  rw [ExtendedMantissa.shiftRightOne]
  simp only [← hq]
  rcases parity with ⟨size, bit⟩ | ⟨size, bit⟩ <;> rw [bit] <;> subst size <;>
    cases r <;> cases s <;> simp [Shows] at h ⊢
  all_goals first
    | linarith
    | exact ⟨by linarith, by linarith⟩

theorem shift (h : Shows em x) (n : ℕ) : Shows (em >>> n) (x / 2 ^ n) := by
  change Shows (n.repeat ExtendedMantissa.shiftRightOne em) _
  induction n with
  | zero => simpa [Nat.repeat] using h
  | succ n ih =>
    rw [pow_succ, ← div_div]
    exact ih.half

end Shows

/-! ## Rounding -/

/-- Half a unit in the last place of a number up to a bound: the part of the number that 53 digits
leave out, or half the least float where the floats are evenly spaced. -/
def halfUnit (bound : ℚ) : ℚ := bound / 2 ^ 53 + 2 ^ (-1075 : ℤ)

theorem halfUnit_nonneg {bound : ℚ} (h : 0 ≤ bound) : 0 ≤ halfUnit bound := by
  unfold halfUnit
  positivity

theorem halfUnit_le (bound : ℚ) : halfUnit bound ≤ bound / 2 ^ 53 + 1 / 2 ^ 64 := by
  have least : (2 : ℚ) ^ (-1075 : ℤ) ≤ 2 ^ (-64 : ℤ) :=
    zpow_le_zpow_right₀ one_le_two (by decide)
  have same : (2 : ℚ) ^ (-64 : ℤ) = 1 / 2 ^ 64 := by rw [zpow_neg, zpow_ofNat, one_div]
  exact add_le_add le_rfl (least.trans_eq same)

theorem halfUnit_mono {bound bound' : ℚ} (h : bound ≤ bound') :
    halfUnit bound ≤ halfUnit bound' := by
  unfold halfUnit
  gcongr

/-- The parts of a float stand for a number that is off by half a unit in the last place at
most. -/
def Near (u : UnpackedFloat) (q : ℚ) : Prop := ∃ v, Stands u v ∧ |v - q| ≤ halfUnit |q|

theorem Near.of_stands {u : UnpackedFloat} {q : ℚ} (h : Stands u q) : Near u q := by
  refine ⟨q, h, ?_⟩
  rw [sub_self, abs_zero]
  exact halfUnit_nonneg (abs_nonneg q)

@[simp] theorem abs_factor (sign : Sign) : |factor sign| = 1 := by
  cases sign <;> norm_num [factor]

/-- Where the residual bits are shifted to, the number is the same. -/
theorem exists_shiftToExponent {m : ℕ} {e t : ℤ} {acc : Accuracy} {x : ℚ}
    (shows : Shows (.ofMantissaAndAccuracy m acc) x) (room : e ≤ t) :
    ∃ em, shiftToExponent m e acc t = (em, t) ∧ Shows em (x * 2 ^ e / 2 ^ t) := by
  obtain ⟨n, rfl⟩ : ∃ n : ℕ, t = e + n := ⟨(t - e).toNat, by omega⟩
  have amount : (e + n - e).toNat = n := by omega
  refine ⟨ExtendedMantissa.ofMantissaAndAccuracy m acc >>> n, ?_, ?_⟩
  · rw [shiftToExponent]
    simp only [amount]
  · have scaled : x * 2 ^ e / 2 ^ (e + n) = x / 2 ^ n := by
      rw [zpow_add₀ two_ne_zero, zpow_natCast]
      field_simp
    rw [scaled]
    exact shows.shift n

/-- The exponent that a float gets. -/
def target (m : ℕ) (e : ℤ) : ℤ := Format.binary64.targetExponent (totalExponent m e)

theorem target_eq (m : ℕ) (e : ℤ) : target m e = max ((m.log2 : ℤ) + 1 + e - 53) (-1074) := rfl

/-- At the exponent that a float gets the number has at most 53 digits, and 53 of them if the
exponent is not the least one. -/
theorem shifted_bounds {m : ℕ} {e : ℤ} {x : ℚ} (low : (m : ℚ) ≤ x) (high : x < m + 1)
    (room : e ≤ target m e) :
    x * 2 ^ e / 2 ^ target m e < 2 ^ 53 ∧
      (target m e = -1074 ∨ 2 ^ 52 ≤ x * 2 ^ e / 2 ^ target m e) := by
  have digits : (m : ℚ) + 1 ≤ 2 ^ (m.log2 + 1) := by exact_mod_cast Nat.lt_log2_self
  have unit : ∀ k : ℤ, (2 : ℚ) ^ k * 2 ^ target m e = 2 ^ (k + target m e) := fun k =>
    (zpow_add₀ two_ne_zero _ _).symm
  have exponent := target_eq m e
  constructor
  · rw [div_lt_iff₀ (by positivity), ← zpow_natCast 2 53, unit]
    calc x * 2 ^ e < 2 ^ (m.log2 + 1) * 2 ^ e := by gcongr; linarith
      _ = 2 ^ ((m.log2 : ℤ) + 1 + e) := by
        rw [zpow_add₀ two_ne_zero, ← zpow_natCast]
        norm_num
      _ ≤ 2 ^ (((53 : ℕ) : ℤ) + target m e) :=
        zpow_le_zpow_right₀ one_le_two (by omega)
  · by_cases least : target m e = -1074
    · exact .inl least
    · right
      have big : 52 ≤ m.log2 := by omega
      have pos : m ≠ 0 := by
        rintro rfl
        simp at big
      have leading : (2 : ℚ) ^ m.log2 ≤ m := by exact_mod_cast Nat.log2_self_le pos
      rw [le_div_iff₀ (by positivity), ← zpow_natCast 2 52, unit]
      calc (2 : ℚ) ^ (((52 : ℕ) : ℤ) + target m e) ≤ 2 ^ ((m.log2 : ℤ) + e) :=
            zpow_le_zpow_right₀ one_le_two (by omega)
        _ = 2 ^ m.log2 * 2 ^ e := by rw [zpow_add₀ two_ne_zero, zpow_natCast]
        _ ≤ x * 2 ^ e := by gcongr; linarith

/-- A number below the largest float has an exponent that a float can have. -/
theorem exponent_le {k : ℕ} {t : ℤ} (full : 2 ^ 52 ≤ k) (small : (k : ℚ) * 2 ^ t < 2 ^ (1024 : ℤ)) :
    t ≤ 971 := by
  by_contra large
  have : (2 : ℚ) ^ (1024 : ℤ) ≤ k * 2 ^ t := by
    calc (2 : ℚ) ^ (1024 : ℤ) = 2 ^ (52 : ℕ) * 2 ^ (972 : ℤ) := by
          rw [← zpow_natCast, ← zpow_add₀ two_ne_zero]
          rfl
      _ ≤ k * 2 ^ t := by
        gcongr
        · exact_mod_cast full
        · exact one_le_two
        · omega
  linarith

/-- A rounded mantissa that has a digit too many gives it to the exponent. -/
theorem exists_shiftToTargetExponent {r : ℕ} {t : ℤ} (low : -1074 ≤ t) (high : r ≤ 2 ^ 53)
    (normal : t = -1074 ∨ 2 ^ 52 ≤ r) (small : (r : ℚ) * 2 ^ t < 2 ^ (1024 : ℤ)) :
    ∃ em t', shiftToTargetExponent Format.binary64 r t .exact = (em, t') ∧
      Canonical em.mantissa t' ∧ (em.mantissa * 2 ^ t' : ℚ) = r * 2 ^ t := by
  have exponent := target_eq r t
  by_cases carry : r = 2 ^ 53
  · subst carry
    have next : target (2 ^ 53) t = t + 1 := by
      rw [Nat.log2_two_pow] at exponent
      omega
    have same : ((2 ^ 52 : ℕ) * 2 ^ (t + 1) : ℚ) = (2 ^ 53 : ℕ) * 2 ^ t := by
      rw [zpow_add₀ two_ne_zero, zpow_one]
      push_cast
      ring
    refine ⟨⟨2 ^ 52, false, false⟩, t + 1, ?_, ⟨by norm_num, by omega, ?_, .inr le_rfl⟩, same⟩
    · change shiftToExponent (2 ^ 53) t .exact (target (2 ^ 53) t) = _
      have one : (t + 1 - t).toNat = 1 := by omega
      rw [next, shiftToExponent]
      simp only [one]
      rfl
    · exact exponent_le le_rfl (same.trans_lt small)
  · have short : r.log2 < 53 := by
      rcases Nat.eq_zero_or_pos r with rfl | pos
      · simp
      · exact (Nat.log2_lt pos.ne').2 (by omega)
    have none : (target r t - t).toNat = 0 := by omega
    have fits : r < 2 ^ 53 := by omega
    refine ⟨⟨r, false, false⟩, t, ?_, ⟨fits, low, ?_, normal⟩, rfl⟩
    · change shiftToExponent r t .exact (target r t) = _
      rw [shiftToExponent]
      simp only [none]
      exact Prod.ext rfl (add_zero t)
    · rcases normal with least | full
      · omega
      · exact exponent_le full small

/-- Half a unit is half of the least float, or the part of the number that 53 digits leave out. -/
theorem half_le_halfUnit {t : ℤ} {y : ℚ} (nonneg : 0 ≤ y) (normal : t = -1074 ∨ 2 ^ 52 ≤ y) :
    (2 : ℚ) ^ t / 2 ≤ halfUnit (y * 2 ^ t) := by
  rcases normal with least | full
  · have half : (2 : ℚ) ^ t / 2 = 2 ^ (-1075 : ℤ) := by
      rw [least, div_eq_mul_inv, ← zpow_neg_one, ← zpow_add₀ two_ne_zero]
      rfl
    rw [half]
    exact le_add_of_nonneg_left (by positivity)
  · have part : (2 : ℚ) ^ t / 2 ≤ y * 2 ^ t / 2 ^ 53 := by
      calc (2 : ℚ) ^ t / 2 = 2 ^ 52 * 2 ^ t / 2 ^ 53 := by ring
        _ ≤ y * 2 ^ t / 2 ^ 53 := by gcongr
    exact le_add_of_le_of_nonneg part (by positivity)

theorem rounded_off {r : ℕ} {t : ℤ} {y : ℚ} (nonneg : 0 ≤ y) (normal : t = -1074 ∨ 2 ^ 52 ≤ y)
    (near : |(r : ℚ) - y| ≤ 1 / 2) : |(r : ℚ) * 2 ^ t - y * 2 ^ t| ≤ halfUnit (y * 2 ^ t) := by
  rw [← sub_mul, abs_mul, abs_of_pos (show (0 : ℚ) < 2 ^ t by positivity)]
  calc |(r : ℚ) - y| * 2 ^ t ≤ 1 / 2 * 2 ^ t := by gcongr
    _ = 2 ^ t / 2 := by ring
    _ ≤ halfUnit (y * 2 ^ t) := half_le_halfUnit nonneg normal

/-- What is off by half a unit stays below twice the bound. -/
theorem lt_of_off {v q : ℚ} (small : q ≤ 2 ^ (1023 : ℤ)) (off : |v - q| ≤ halfUnit q) :
    v < 2 ^ (1024 : ℤ) := by
  have double : (2 : ℚ) ^ (1024 : ℤ) = 2 * 2 ^ (1023 : ℤ) := by
    rw [show (1024 : ℤ) = 1 + 1023 from rfl, zpow_add₀ two_ne_zero, zpow_one]
  have large : (2 : ℚ) ^ (2 : ℤ) ≤ 2 ^ (1023 : ℤ) := zpow_le_zpow_right₀ one_le_two (by decide)
  have above := (abs_le.1 off).2
  have unit := halfUnit_le q
  rw [double]
  generalize (2 : ℚ) ^ (1023 : ℤ) = most at small large ⊢
  norm_num at large unit
  linarith

/-- A number below the largest floats is rounded to a float near it. -/
theorem near_roundWithAccuracy {m : ℕ} {e : ℤ} {acc : Accuracy} {x : ℚ} (sign : Sign)
    (shows : Shows (ExtendedMantissa.ofMantissaAndAccuracy m acc) x) (room : e ≤ target m e)
    (small : x * 2 ^ e ≤ 2 ^ (1023 : ℤ)) :
    Near (roundWithAccuracy Format.binary64 sign m e acc) (factor sign * (x * 2 ^ e)) := by
  have whole : (ExtendedMantissa.ofMantissaAndAccuracy m acc).mantissa = m := by
    rcases acc with _ | _ | _ | _ <;> rfl
  obtain ⟨low, high⟩ := shows.bounds
  rw [whole] at low high
  obtain ⟨below, normal⟩ := shifted_bounds low high room
  obtain ⟨em, shifted, shows⟩ := exists_shiftToExponent shows room
  obtain ⟨t, ht⟩ : ∃ t, t = target m e := ⟨_, rfl⟩
  obtain ⟨y, hy⟩ : ∃ y, y = x * 2 ^ e / 2 ^ t := ⟨_, rfl⟩
  rw [← ht, ← hy] at below normal shows
  have scaled : x * 2 ^ e = y * 2 ^ t := by
    rw [hy]
    field_simp
  rw [scaled] at small ⊢
  -- The mantissa is rounded once; then it has 53 digits, or 54 if the rounding has carried.
  obtain ⟨near, down, up⟩ := shows.rounded
  obtain ⟨low', high'⟩ := shows.bounds
  obtain ⟨r, hr⟩ : ∃ r, r = em.roundedMantissa := ⟨_, rfl⟩
  rw [← hr] at near down up
  have nonneg : 0 ≤ y := (Nat.cast_nonneg em.mantissa).trans low'
  have bound : em.mantissa < 2 ^ 53 := by exact_mod_cast low'.trans_lt below
  have full : t = -1074 ∨ 2 ^ 52 ≤ r := by
    refine normal.imp_right fun big => down.trans' (Nat.le_of_lt_succ ?_)
    exact_mod_cast big.trans_lt high'
  have off := rounded_off nonneg normal near
  obtain ⟨em', t', shifted', canonical, same⟩ := exists_shiftToTargetExponent
    (ht ▸ (le_max_right _ _ : -1074 ≤ target m e)) (up.trans bound) full (lt_of_off small off)
  have parts : roundWithAccuracy Format.binary64 sign m e acc =
      if h : em'.mantissa = 0 then .zero sign
      else .finite sign em'.mantissa t' (Nat.pos_of_ne_zero h) := by
    rw [roundWithAccuracy, shiftToTargetExponent, ← target, shifted, ← ht]
    simp only [← hr, shifted']
  refine ⟨factor sign * (em'.mantissa * 2 ^ t'), ?_, ?_⟩
  · rw [parts]
    split
    · next none => simp [Stands, none]
    · exact ⟨canonical, rfl⟩
  · have nonneg' : 0 ≤ y * 2 ^ t := mul_nonneg nonneg (by positivity)
    rw [same, ← mul_sub, abs_mul, abs_mul, abs_factor, one_mul, one_mul, abs_of_nonneg nonneg']
    exact off

theorem log2_shiftLeft {m : ℕ} (pos : 0 < m) (k : ℕ) : (m <<< k).log2 = m.log2 + k := by
  rw [Nat.shiftLeft_eq]
  refine (Nat.log2_eq_iff (by positivity)).2 ⟨?_, ?_⟩
  · rw [pow_add]
    exact Nat.mul_le_mul_right _ (Nat.log2_self_le pos.ne')
  · rw [Nat.add_right_comm, pow_add]
    exact Nat.mul_lt_mul_of_pos_right Nat.lt_log2_self (by positivity)

theorem near_round {m : ℕ} {e : ℤ} (sign : Sign) (pos : 0 < m)
    (small : (m : ℚ) * 2 ^ e ≤ 2 ^ (1023 : ℤ)) :
    Near (UnpackedFloat.round Format.binary64 sign m e) (factor sign * (m * 2 ^ e)) := by
  obtain ⟨k, hk⟩ : ∃ k, k = (e - target m e).toNat := ⟨_, rfl⟩
  have same : target (m <<< k) (e - k) = target m e := by
    rw [target_eq, target_eq, log2_shiftLeft pos]
    omega
  have scaled : ((m <<< k : ℕ) : ℚ) * 2 ^ (e - k) = m * 2 ^ e := by
    rw [Nat.shiftLeft_eq, zpow_sub₀ two_ne_zero, zpow_natCast]
    push_cast
    field_simp
  have parts : UnpackedFloat.round Format.binary64 sign m e =
      roundWithAccuracy Format.binary64 sign (m <<< k) (e - k) .exact := by
    rw [UnpackedFloat.round, ← target, decreaseExponent]
    simp only [← hk]
  rw [parts, ← scaled]
  exact near_roundWithAccuracy sign rfl (by omega) (scaled ▸ small)

theorem near_normalize (m : ℤ) (e : ℤ) (sign : Sign) (small : |(m : ℚ) * 2 ^ e| ≤ 2 ^ (1023 : ℤ)) :
    Near (UnpackedFloat.normalize Format.binary64 m e sign) (m * 2 ^ e) := by
  rw [abs_mul, abs_of_pos (show (0 : ℚ) < 2 ^ e by positivity)] at small
  rcases lt_trichotomy m 0 with neg | rfl | pos
  · obtain ⟨n, hn⟩ : ∃ n : ℕ, m = -n := ⟨(-m).toNat, by omega⟩
    have parts : UnpackedFloat.normalize Format.binary64 m e sign =
        UnpackedFloat.round Format.binary64 .negative n e := by
      rw [UnpackedFloat.normalize, compare_lt_iff_lt.2 neg, hn, neg_neg, Int.toNat_natCast]
    subst hn
    have near := near_round (m := n) (e := e) .negative (by omega) (by simpa using small)
    rw [parts]
    simpa [factor] using near
  · have parts : UnpackedFloat.normalize Format.binary64 0 e sign = .zero sign := rfl
    rw [parts, Int.cast_zero, zero_mul]
    exact .of_stands rfl
  · obtain ⟨n, rfl⟩ := Int.eq_ofNat_of_zero_le pos.le
    have parts : UnpackedFloat.normalize Format.binary64 n e sign =
        UnpackedFloat.round Format.binary64 .positive n e := by
      rw [UnpackedFloat.normalize, compare_gt_iff_gt.2 pos, Int.toNat_natCast]
    have near := near_round (m := n) (e := e) .positive (by omega) (by simpa using small)
    rw [parts]
    simpa [factor] using near

/-! ## Sums -/

theorem cast_apply (sign : Sign) (n : ℤ) : ((sign.apply n : ℤ) : ℚ) = factor sign * n := by
  cases sign <;> simp [Sign.apply, factor]

/-- What is added to a mantissa is in units of the smaller exponent. -/
theorem decreaseExponent_min {m : ℕ} {e e' : ℤ} (h : e' ≤ e) :
    ((decreaseExponent m e e').1 : ℚ) * 2 ^ e' = m * 2 ^ e := by
  obtain ⟨k, rfl⟩ : ∃ k : ℕ, e = e' + k := ⟨(e - e').toNat, by omega⟩
  have amount : (e' + k - e').toNat = k := by omega
  rw [decreaseExponent]
  simp only [amount]
  rw [Nat.shiftLeft_eq, zpow_add₀ two_ne_zero, zpow_natCast]
  push_cast
  ring

theorem near_add {u w : UnpackedFloat} {p q : ℚ} (hu : Stands u p) (hw : Stands w q)
    (small : |p + q| ≤ 2 ^ (1023 : ℤ)) : Near (UnpackedFloat.add Format.binary64 u w) (p + q) := by
  cases u with
  | infinity | notANumber => exact hu.elim
  | zero s =>
    obtain rfl : p = 0 := hu
    rw [zero_add]
    cases w with
    | infinity | notANumber => exact hw.elim
    | zero s' =>
      refine .of_stands ?_
      rw [UnpackedFloat.add]
      split <;> exact hw
    | finite s' m' e' pos' => exact .of_stands hw
  | finite s m e pos =>
    cases w with
    | infinity | notANumber => exact hw.elim
    | zero s' =>
      obtain rfl : q = 0 := hw
      rw [add_zero]
      exact .of_stands hu
    | finite s' m' e' pos' =>
      obtain ⟨-, rfl⟩ := hu
      obtain ⟨-, rfl⟩ := hw
      have sum : (((s.apply (decreaseExponent m e (min e e')).1 +
          s'.apply (decreaseExponent m' e' (min e e')).1 : ℤ)) : ℚ) * 2 ^ min e e' =
            factor s * (m * 2 ^ e) + factor s' * (m' * 2 ^ e') := by
        rw [← decreaseExponent_min (min_le_left e e'), ← decreaseExponent_min (min_le_right e e')]
        push_cast
        rw [cast_apply, cast_apply]
        push_cast
        ring
      rw [← sum] at small ⊢
      exact near_normalize _ _ _ small

theorem Stands.neg {u : UnpackedFloat} {q : ℚ} (h : Stands u q) : Stands u.neg (-q) := by
  cases u with
  | infinity | notANumber => exact h.elim
  | zero s =>
    obtain rfl : q = 0 := h
    exact neg_zero
  | finite s m e pos =>
    obtain ⟨canonical, rfl⟩ := h
    refine ⟨canonical, ?_⟩
    cases s <;> simp [factor]

/-- To subtract is to add what is opposite. -/
theorem sub_eq_add_neg_parts (u w : UnpackedFloat) :
    UnpackedFloat.sub Format.binary64 u w = UnpackedFloat.add Format.binary64 u w.neg := by
  cases u with
  | notANumber | infinity | zero => cases w <;> rfl
  | finite s m e pos =>
    cases w with
    | notANumber | infinity | zero => rfl
    | finite s' m' e' pos' =>
      have opposite : ∀ n : ℤ, (-s').apply n = -s'.apply n := by
        intro n
        cases s' with
        | negative => exact (neg_neg n).symm
        | positive => rfl
      simp only [UnpackedFloat.sub, UnpackedFloat.neg, UnpackedFloat.add, opposite]
      rfl

theorem near_sub {u w : UnpackedFloat} {p q : ℚ} (hu : Stands u p) (hw : Stands w q)
    (small : |p - q| ≤ 2 ^ (1023 : ℤ)) : Near (UnpackedFloat.sub Format.binary64 u w) (p - q) := by
  rw [sub_eq_add_neg] at small ⊢
  rw [sub_eq_add_neg_parts]
  exact near_add hu hw.neg small

/-! ## Products and quotients -/

theorem factor_mul (s s' : Sign) : factor (s * s') = factor s * factor s' := by
  cases s <;> cases s' <;> first | rfl | norm_num [factor]

theorem factor_div (s s' : Sign) : factor (s / s') = factor s / factor s' := by
  have same : s / s' = s * s' := by cases s <;> cases s' <;> rfl
  rw [same, factor_mul]
  cases s <;> cases s' <;> norm_num [factor]

/-- A mantissa of 53 digits, or one at the least exponent, is not to be shifted to the left. -/
theorem le_target {m : ℕ} {e : ℤ} (h : e ≤ -1074 ∨ 2 ^ 52 ≤ m) : e ≤ target m e := by
  rw [target_eq]
  rcases h with least | big
  · omega
  · have : 52 ≤ m.log2 := (Nat.le_log2 (by omega)).2 big
    omega

theorem near_mul {u w : UnpackedFloat} {p q : ℚ} (hu : Stands u p) (hw : Stands w q)
    (small : |p * q| ≤ 2 ^ (1023 : ℤ)) : Near (UnpackedFloat.mul Format.binary64 u w) (p * q) := by
  cases u with
  | infinity | notANumber => exact hu.elim
  | zero s =>
    obtain rfl : p = 0 := hu
    rw [zero_mul]
    cases w with
    | infinity | notANumber => exact hw.elim
    | zero | finite => exact .of_stands rfl
  | finite s m e pos =>
    cases w with
    | infinity | notANumber => exact hw.elim
    | zero s' =>
      obtain rfl : q = 0 := hw
      rw [mul_zero]
      exact .of_stands rfl
    | finite s' m' e' pos' =>
      obtain ⟨c, rfl⟩ := hu
      obtain ⟨c', rfl⟩ := hw
      have product : factor s * (m * 2 ^ e) * (factor s' * (m' * 2 ^ e')) =
          factor (s * s') * (((m * m' : ℕ) : ℚ) * 2 ^ (e + e')) := by
        rw [factor_mul, zpow_add₀ two_ne_zero]
        push_cast
        ring
      have room : e + e' ≤ target (m * m') (e + e') := by
        apply le_target
        rcases c.normal with least | big
        · rcases c'.normal with least' | big'
          · exact .inl (by omega)
          · exact .inr (big'.trans (Nat.le_mul_of_pos_left _ pos))
        · exact .inr (big.trans (Nat.le_mul_of_pos_right _ pos'))
      rw [product, abs_mul, abs_factor, one_mul, abs_of_nonneg (by positivity)] at small
      rw [product]
      exact near_roundWithAccuracy _ rfl room small

/-- The remainder of a division tells the residual bits of the quotient. -/
theorem shows_accuracyOfFraction (m : ℕ) {m' : ℕ} (pos : 0 < m') :
    Shows (ExtendedMantissa.ofMantissaAndAccuracy (m / m') (accuracyOfFraction (m % m') m'))
      (m / m' : ℚ) := by
  have pos' : (0 : ℚ) < m' := by exact_mod_cast pos
  have whole : (m : ℚ) / m' = (m / m' : ℕ) + ((m % m' : ℕ) : ℚ) / m' := by
    rw [div_eq_iff pos'.ne', add_mul, div_mul_cancel₀ _ pos'.ne']
    exact_mod_cast (Nat.div_add_mod' m m').symm
  have less : ((m % m' : ℕ) : ℚ) / m' < 1 := by
    rw [div_lt_one pos']
    exact_mod_cast Nat.mod_lt m pos
  rw [whole, accuracyOfFraction]
  by_cases exact_ : m % m' = 0
  · rw [if_pos exact_, exact_]
    simp [Shows, ExtendedMantissa.ofMantissaAndAccuracy]
  · have some : 0 < ((m % m' : ℕ) : ℚ) / m' :=
      div_pos (by exact_mod_cast Nat.pos_of_ne_zero exact_) pos'
    rw [if_neg exact_]
    generalize m % m' = r at *
    generalize m / m' = q at *
    rcases lt_trichotomy (2 * r) m' with below | tie | above
    · have below' : (r : ℚ) / m' < 1 / 2 := by
        rw [div_lt_iff₀ pos']
        have : (2 * r : ℚ) < m' := by exact_mod_cast below
        linarith
      rw [compare_lt_iff_lt.2 below]
      change (q : ℚ) < q + r / m' ∧ q + r / m' < (q : ℚ) + 1 / 2
      exact ⟨by linarith, by linarith⟩
    · have tie' : (r : ℚ) / m' = 1 / 2 := by
        rw [div_eq_iff pos'.ne']
        have : (2 * r : ℚ) = m' := by exact_mod_cast tie
        linarith
      rw [compare_eq_iff_eq.2 tie, tie']
      rfl
    · have above' : 1 / 2 < (r : ℚ) / m' := by
        rw [lt_div_iff₀ pos']
        have : (m' : ℚ) < 2 * r := by exact_mod_cast above
        linarith
      rw [compare_gt_iff_gt.2 above]
      change (q : ℚ) + 1 / 2 < q + r / m' ∧ q + r / m' < (q : ℚ) + 1
      exact ⟨by linarith, by linarith⟩

/-- The exponent of a quotient, and what the dividend is shifted by for it. -/
def quotientExponent (m : ℕ) (e : ℤ) (m' : ℕ) (e' : ℤ) : ℤ :=
  min (e - e') (Format.binary64.targetExponent (totalExponent m e - totalExponent m' e'))

theorem div_eq_roundWithAccuracy {s s' : Sign} {m m' : ℕ} {e e' t : ℤ} {pos : 0 < m}
    {pos' : 0 < m'} {k : ℕ} (ht : t = quotientExponent m e m' e') (hk : k = (e - e' - t).toNat) :
    UnpackedFloat.div Format.binary64 (.finite s m e pos) (.finite s' m' e' pos') =
      roundWithAccuracy Format.binary64 (s / s') (m <<< k / m') t
        (accuracyOfFraction (m <<< k % m') m') := by
  rw [hk, ht]
  rfl

/-- The quotient has the digits of a float, unless it has the least exponent. -/
theorem le_target_quotient {m m' : ℕ} {e e' t : ℤ} {k : ℕ} (pos : 0 < m) (pos' : 0 < m')
    (ht : t = quotientExponent m e m' e') (hk : k = (e - e' - t).toNat) :
    t ≤ target (m <<< k / m') t := by
  have exponent : t = min (e - e')
      (max ((m.log2 + 1 + e : ℤ) - (m'.log2 + 1 + e') - 53) (-1074)) := ht
  apply le_target
  by_cases least : t ≤ -1074
  · exact .inl least
  · right
    have enough : 53 + m'.log2 ≤ m.log2 + k := by omega
    rw [Nat.le_div_iff_mul_le pos', Nat.shiftLeft_eq]
    calc 2 ^ 52 * m' ≤ 2 ^ 52 * 2 ^ (m'.log2 + 1) := Nat.mul_le_mul_left _ Nat.lt_log2_self.le
      _ = 2 ^ (53 + m'.log2) := by ring
      _ ≤ 2 ^ (m.log2 + k) := Nat.pow_le_pow_right two_pos enough
      _ = 2 ^ m.log2 * 2 ^ k := pow_add _ _ _
      _ ≤ m * 2 ^ k := Nat.mul_le_mul_right _ (Nat.log2_self_le pos.ne')

theorem quotient_eq {s s' : Sign} {m m' : ℕ} {e e' t : ℤ} {k : ℕ}
    (ht : t = quotientExponent m e m' e') (hk : k = (e - e' - t).toNat) :
    factor s * (m * 2 ^ e) / (factor s' * (m' * 2 ^ e')) =
      factor (s / s') * (((m <<< k : ℕ) : ℚ) / m' * 2 ^ t) := by
  have smaller : t ≤ e - e' := ht ▸ min_le_left _ _
  obtain rfl : e = k + t + e' := by omega
  rw [factor_div, Nat.shiftLeft_eq, mul_div_mul_comm, zpow_add₀ two_ne_zero,
    zpow_add₀ two_ne_zero, zpow_natCast]
  push_cast
  field_simp

theorem near_div {u w : UnpackedFloat} {p q : ℚ} (hu : Stands u p) (hw : Stands w q) (hq : q ≠ 0)
    (small : |p / q| ≤ 2 ^ (1023 : ℤ)) : Near (UnpackedFloat.div Format.binary64 u w) (p / q) := by
  cases u with
  | infinity | notANumber => exact hu.elim
  | zero s =>
    obtain rfl : p = 0 := hu
    rw [zero_div]
    cases w with
    | infinity | notANumber => exact hw.elim
    | zero s' => exact (hq hw).elim
    | finite s' m' e' pos' => exact .of_stands rfl
  | finite s m e pos =>
    cases w with
    | infinity | notANumber => exact hw.elim
    | zero s' => exact (hq hw).elim
    | finite s' m' e' pos' =>
      obtain ⟨-, rfl⟩ := hu
      obtain ⟨-, rfl⟩ := hw
      obtain ⟨t, ht⟩ : ∃ t, t = quotientExponent m e m' e' := ⟨_, rfl⟩
      obtain ⟨k, hk⟩ : ∃ k, k = (e - e' - t).toNat := ⟨_, rfl⟩
      have quotient := @quotient_eq s s' m m' e e' t k ht hk
      have nonneg : 0 ≤ ((m <<< k : ℕ) : ℚ) / m' * 2 ^ t :=
        mul_nonneg (div_nonneg (Nat.cast_nonneg _) (Nat.cast_nonneg _)) (zpow_nonneg zero_le_two _)
      rw [quotient, abs_mul, abs_factor, one_mul, abs_of_nonneg nonneg] at small
      rw [quotient, div_eq_roundWithAccuracy ht hk]
      exact near_roundWithAccuracy _ (shows_accuracyOfFraction _ pos')
        (le_target_quotient pos pos' ht hk) small

/-! ## Operations on floats -/

/-- A finite float stands for a number that is off another by so much at most. -/
def Within (x : Float) (q δ : ℚ) : Prop := ∃ v, value? x = some v ∧ |v - q| ≤ δ

namespace Within

variable {x y : Float} {p q v a b B δ : ℚ}

theorem of_value (h : value? x = some q) : Within x q 0 := ⟨q, h, by simp⟩

theorem mono (h : Within x q δ) {δ' : ℚ} (le : δ ≤ δ') : Within x q δ' :=
  h.imp fun _ h => ⟨h.1, h.2.trans le⟩

theorem abs_le_of_off (off : |v - q| ≤ a) (bound : |q| + a ≤ B) : |v| ≤ B := by
  linarith [abs_sub_abs_le_abs_sub v q]

/-- What is rounded is off by what it was off before, and by half a unit in the last place. -/
theorem of_near {u : UnpackedFloat} (near : Near u v) (off : |v - q| ≤ a) (bound : |q| + a ≤ B) :
    Within (ofParts u) q (a + halfUnit B) := by
  obtain ⟨z, stands, rounded⟩ := near
  refine ⟨z, value?_ofParts stands, ?_⟩
  calc |z - q| ≤ |z - v| + |v - q| := abs_sub_le z v q
    _ ≤ halfUnit B + a := add_le_add (rounded.trans (halfUnit_mono (abs_le_of_off off bound))) off
    _ = a + halfUnit B := add_comm _ _

theorem add (hx : Within x p a) (hy : Within y q b) (bound : |p + q| + (a + b) ≤ B)
    (small : B ≤ 2 ^ (1023 : ℤ)) : Within (x + y) (p + q) (a + b + halfUnit B) := by
  obtain ⟨v, hv, offv⟩ := hx
  obtain ⟨w, hw, offw⟩ := hy
  have off : |v + w - (p + q)| ≤ a + b := by
    rw [add_sub_add_comm]
    exact (abs_add_le _ _).trans (add_le_add offv offw)
  exact of_near (near_add (stands_unpack hv) (stands_unpack hw)
    ((abs_le_of_off off bound).trans small)) off bound

theorem sub (hx : Within x p a) (hy : Within y q b) (bound : |p - q| + (a + b) ≤ B)
    (small : B ≤ 2 ^ (1023 : ℤ)) : Within (x - y) (p - q) (a + b + halfUnit B) := by
  obtain ⟨v, hv, offv⟩ := hx
  obtain ⟨w, hw, offw⟩ := hy
  have off : |v - w - (p - q)| ≤ a + b := by
    rw [sub_sub_sub_comm]
    exact (abs_sub _ _).trans (add_le_add offv offw)
  exact of_near (near_sub (stands_unpack hv) (stands_unpack hw)
    ((abs_le_of_off off bound).trans small)) off bound

theorem mul (hx : Within x p a) (hy : value? y = some q) (bound : |p * q| + a * |q| ≤ B)
    (small : B ≤ 2 ^ (1023 : ℤ)) : Within (x * y) (p * q) (a * |q| + halfUnit B) := by
  obtain ⟨v, hv, offv⟩ := hx
  have off : |v * q - p * q| ≤ a * |q| := by
    rw [← sub_mul, abs_mul]
    gcongr
  exact of_near (near_mul (stands_unpack hv) (stands_unpack hy)
    ((abs_le_of_off off bound).trans small)) off bound

theorem div (hx : Within x p a) (hy : value? y = some q) (hq : q ≠ 0)
    (bound : |p / q| + a / |q| ≤ B) (small : B ≤ 2 ^ (1023 : ℤ)) :
    Within (x / y) (p / q) (a / |q| + halfUnit B) := by
  obtain ⟨v, hv, offv⟩ := hx
  have off : |v / q - p / q| ≤ a / |q| := by
    rw [← sub_div, abs_div]
    gcongr
  exact of_near (near_div (stands_unpack hv) (stands_unpack hy) hq
    ((abs_le_of_off off bound).trans small)) off bound

end Within

/-! ## Integers -/

theorem roundsTo_self (m : ℕ) (e : ℤ) : RoundsTo m e (m * 2 ^ e) := by
  have center : (m * 2 ^ e : ℚ) / 2 ^ (e - 2) = ((4 * m : ℕ) : ℚ) := by
    rw [zpow_sub₀ two_ne_zero]
    push_cast
    field_simp
  have low : (cell m e).low ≤ 4 * m ∧ ((cell m e).closed = false → (cell m e).low < 4 * m) := by
    unfold cell
    simp only [beq_eq_false_iff_ne]
    split <;> omega
  have high : 4 * m < (cell m e).high := Nat.lt_add_of_pos_right two_pos
  rw [RoundsTo, center]
  refine ⟨by exact_mod_cast low.1, by exact_mod_cast high.le, fun open_ => ⟨?_, ?_⟩⟩
  · exact_mod_cast low.2 open_
  · exact_mod_cast high

/-- An integer of 53 binary digits is a float. -/
theorem exists_canonical {n : ℕ} (pos : 0 < n) (small : n < 2 ^ 53) :
    ∃ m e, Canonical m e ∧ 0 < m ∧ (n : ℚ) = m * 2 ^ e := by
  have short : n.log2 < 53 := (Nat.log2_lt pos.ne').2 small
  refine ⟨n * 2 ^ (52 - n.log2), n.log2 - 52, ⟨?_, by omega, by omega, .inr ?_⟩, by positivity, ?_⟩
  · calc n * 2 ^ (52 - n.log2) < 2 ^ (n.log2 + 1) * 2 ^ (52 - n.log2) :=
          Nat.mul_lt_mul_of_pos_right Nat.lt_log2_self (by positivity)
      _ = 2 ^ 53 := by
        rw [← pow_add]
        congr 1
        omega
  · calc 2 ^ 52 = 2 ^ n.log2 * 2 ^ (52 - n.log2) := by
          rw [← pow_add]
          congr 1
          omega
      _ ≤ n * 2 ^ (52 - n.log2) := Nat.mul_le_mul_right _ (Nat.log2_self_le pos.ne')
  · have back : (n.log2 : ℤ) - 52 = -((52 - n.log2 : ℕ) : ℤ) := by omega
    rw [back, zpow_neg, zpow_natCast]
    push_cast
    field_simp

theorem value?_ofInt {n : ℤ} (small : |n| < 2 ^ 53) : value? (ofInt n) = some (n : ℚ) := by
  rcases Nat.eq_zero_or_pos n.natAbs with zero | pos
  · obtain rfl : n = 0 := Int.natAbs_eq_zero.1 zero
    have parts : decode (ofInt 0) = .finite false 0 (-1074) := by decide +kernel
    rw [value?, parts]
    simp
  · have size : |n| = n.natAbs := Int.abs_eq_natAbs n
    obtain ⟨m, e, canonical, hm, whole⟩ := exists_canonical pos (by omega)
    have bits : ofInt n = ofMagnitude (decide (n < 0)) (magnitudeBits m e) := by
      rw [ofInt, nearest, nearestBits_eq canonical hm pos one_pos]
      rw [whole, Nat.cast_one, div_one]
      exact roundsTo_self m e
    have parts : decode (ofInt n) = .finite (decide (n < 0)) m e := by
      have packed := @decode_ofParts (decide (n < 0)) m e canonical hm
      rwa [(eq_ofMagnitude packed).2, ← bits] at packed
    rw [value?, parts]
    simp only [← whole, decide_eq_true_eq]
    congr 1
    split
    · next neg =>
      obtain ⟨k, rfl⟩ : ∃ k : ℕ, n = -k := ⟨(-n).toNat, by omega⟩
      simp
    · next nonneg =>
      obtain ⟨k, rfl⟩ := Int.eq_ofNat_of_zero_le (not_lt.1 nonneg)
      simp

theorem isFinite_of_value? {x : Float} {v : ℚ} (h : value? x = some v) : isFinite x = true := by
  unfold value? at h
  unfold isFinite
  cases parts : decode x with
  | nan | infinite =>
    rw [parts] at h
    cases h
  | finite negative m e => rfl

theorem ofInt?_eq_some {n : ℤ} (small : |n| < 2 ^ 53) : ofInt? n = some (ofInt n) :=
  if_pos (isFinite_of_value? (value?_ofInt small))

end Stepwise.Decimal
