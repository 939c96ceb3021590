import Mathlib.Algebra.Order.Field.Power
import Mathlib.Tactic.FieldSimp
import Stepwise.Decimal.Shortest
import Stepwise.Proofs.Decimal.Bits

/-!
# Rounding to the nearest float

A rational number rounds to `m * 2 ^ e` when it lies in the cell of that float (`RoundsTo`).
`nearestBits` then yields the bits of the float, whichever ratio stands for the number, and so
does `ofDecimal` for every way to write the number with digits and a power of ten.
-/

namespace Stepwise.Decimal

/-! ## Leading powers -/

theorem reaches_iff {b num den : ℕ} (hb : 0 < b) (hd : 0 < den) (g : ℤ) :
    (if 0 ≤ g then den * Nat.pow b g.toNat ≤ num else den ≤ num * Nat.pow b (-g).toNat) ↔
      (b : ℚ) ^ g ≤ num / den := by
  have hb' : (0 : ℚ) < b := by exact_mod_cast hb
  have hd' : (0 : ℚ) < den := by exact_mod_cast hd
  rw [le_div_iff₀ hd']
  split
  · next h =>
    obtain ⟨k, rfl⟩ := Int.eq_ofNat_of_zero_le h
    rw [Int.toNat_natCast, Nat.pow_eq, zpow_natCast, mul_comm]
    exact_mod_cast Iff.rfl
  · next h =>
    obtain ⟨k, hk⟩ := Int.eq_ofNat_of_zero_le (show 0 ≤ -g by omega)
    obtain rfl : g = -(k : ℤ) := by omega
    rw [hk, Int.toNat_natCast, Nat.pow_eq, zpow_neg, zpow_natCast, inv_mul_le_iff₀ (by positivity)]
    rw [mul_comm num]
    exact_mod_cast Iff.rfl

/-- The sizes of two numbers bound the size of their ratio. -/
theorem ratio_bounds {b num den i j : ℕ} (hb : 0 < b) (hn : b ^ i ≤ num) (hn' : num < b ^ (i + 1))
    (hd : b ^ j ≤ den) (hd' : den < b ^ (j + 1)) :
    (b : ℚ) ^ ((i : ℤ) - j - 1) ≤ num / den ∧ (num / den : ℚ) < b ^ ((i : ℤ) - j + 1) := by
  have hb' : (0 : ℚ) < b := by exact_mod_cast hb
  have hden : (0 : ℚ) < den := by
    have : 0 < den := lt_of_lt_of_le (by positivity) hd
    exact_mod_cast this
  have hn : (b : ℚ) ^ i ≤ num := by exact_mod_cast hn
  have hn' : (num : ℚ) < b ^ (i + 1) := by exact_mod_cast hn'
  have hd : (b : ℚ) ^ j ≤ den := by exact_mod_cast hd
  have hd' : (den : ℚ) < b ^ (j + 1) := by exact_mod_cast hd'
  constructor
  · rw [le_div_iff₀ hden]
    calc (b : ℚ) ^ ((i : ℤ) - j - 1) * den ≤ b ^ ((i : ℤ) - j - 1) * b ^ (j + 1) := by
          gcongr
      _ = b ^ i := by
          rw [← zpow_natCast, ← zpow_natCast, ← zpow_add₀ hb'.ne']
          congr 1
          push_cast
          ring
      _ ≤ num := hn
  · rw [div_lt_iff₀ hden]
    calc (num : ℚ) < b ^ (i + 1) := hn'
      _ = b ^ ((i : ℤ) - j + 1) * b ^ j := by
          rw [← zpow_natCast, ← zpow_natCast, ← zpow_add₀ hb'.ne']
          congr 1
          push_cast
          ring
      _ ≤ b ^ ((i : ℤ) - j + 1) * den := by gcongr

/-- The guess from the sizes, put right, is the leading power of a ratio. -/
theorem leading_of_guess {b num den i j : ℕ} (hb : 0 < b) (hn : b ^ i ≤ num)
    (hn' : num < b ^ (i + 1)) (hd : b ^ j ≤ den) (hd' : den < b ^ (j + 1)) {g p : ℤ}
    (hg : g = (i : ℤ) - j) (hp : p = if (b : ℚ) ^ g ≤ num / den then g else g - 1) :
    (b : ℚ) ^ p ≤ num / den ∧ (num / den : ℚ) < b ^ (p + 1) := by
  obtain ⟨low, high⟩ := ratio_bounds hb hn hn' hd hd'
  rw [← hg] at low high
  by_cases h : (b : ℚ) ^ g ≤ num / den
  · rw [hp, if_pos h]
    exact ⟨h, high⟩
  · rw [hp, if_neg h, sub_add_cancel]
    exact ⟨low, lt_of_not_ge h⟩

theorem ratioExponent_spec {num den : ℕ} (hn : 0 < num) (hd : 0 < den) :
    -1074 ≤ ratioExponent num den ∧ (num / den : ℚ) < 2 ^ (ratioExponent num den + 53) ∧
      (ratioExponent num den = -1074 ∨ (2 : ℚ) ^ (ratioExponent num den + 52) ≤ num / den) := by
  obtain ⟨p, hp⟩ : ∃ p : ℤ, p = if ((2 : ℕ) : ℚ) ^ ((num.log2 : ℤ) - den.log2) ≤ num / den then
    (num.log2 : ℤ) - den.log2 else num.log2 - den.log2 - 1 := ⟨_, rfl⟩
  obtain ⟨low, high⟩ := leading_of_guess two_pos (Nat.log2_self_le hn.ne') Nat.lt_log2_self
    (Nat.log2_self_le hd.ne') Nat.lt_log2_self rfl hp
  rw [Nat.cast_ofNat] at low high
  unfold ratioExponent
  simp only [reaches_iff two_pos hd, ← hp]
  rcases le_total (p - 52) (-1074) with h | h
  · rw [max_eq_right h]
    refine ⟨le_refl _, high.trans_le ?_, Or.inl rfl⟩
    exact zpow_le_zpow_right₀ one_le_two (by omega)
  · rw [max_eq_left h]
    refine ⟨h, ?_, Or.inr ?_⟩
    · convert high using 2
      ring
    · convert low using 2
      ring

theorem toDigits_bounds {n : ℕ} (hn : 0 < n) :
    10 ^ ((Nat.toDigits 10 n).length - 1) ≤ n ∧ n < 10 ^ (Nat.toDigits 10 n).length := by
  have pos : 0 < (Nat.toDigits 10 n).length := Nat.length_toDigits_pos
  refine ⟨?_, (Nat.length_toDigits_le_iff (by decide) pos).1 (le_refl _)⟩
  by_cases h : (Nat.toDigits 10 n).length = 1
  · rw [h]
    exact hn
  · refine Nat.le_of_not_lt fun hlt => ?_
    have := (Nat.length_toDigits_le_iff (by decide) (by omega)).2 hlt
    omega

theorem pow_leadingPower_le {num den : ℕ} (hn : 0 < num) (hd : 0 < den) :
    (10 : ℚ) ^ leadingPower num den ≤ num / den := by
  have size : ∀ n, (Nat.toDigits 10 n).length = (Nat.toDigits 10 n).length - 1 + 1 := fun n =>
    (Nat.sub_add_cancel Nat.length_toDigits_pos).symm
  obtain ⟨hn₁, hn₂⟩ := toDigits_bounds hn
  obtain ⟨hd₁, hd₂⟩ := toDigits_bounds hd
  rw [size] at hn₂ hd₂
  obtain ⟨p, hp⟩ : ∃ p : ℤ, p = if ((10 : ℕ) : ℚ) ^ (((Nat.toDigits 10 num).length : ℤ) -
      (Nat.toDigits 10 den).length) ≤ num / den then
    ((Nat.toDigits 10 num).length : ℤ) - (Nat.toDigits 10 den).length
    else (Nat.toDigits 10 num).length - (Nat.toDigits 10 den).length - 1 := ⟨_, rfl⟩
  unfold leadingPower
  simp only [reaches_iff (show 0 < 10 by decide) hd, ← hp]
  have leading := leading_of_guess (by decide) hn₁ hn₂ hd₁ hd₂ ?_ hp
  · exact_mod_cast leading.1
  · have := size num
    have := size den
    omega

/-! ## The cell of a float -/

/-- A point in units of a cell lies in the cell. -/
structure Cell.Contains (c : Cell) (point : ℚ) : Prop where
  low : (c.low : ℚ) ≤ point
  high : point ≤ c.high
  strict : c.closed = false → (c.low : ℚ) < point ∧ point < c.high

/-- A number lies in the cell of `m * 2 ^ e`. -/
def RoundsTo (m : ℕ) (e : ℤ) (q : ℚ) : Prop :=
  (cell m e).Contains (q / 2 ^ (e - 2))

theorem roundHalfEven_eq_of_le {num den n : ℕ} (hd : 0 < den) (low : 2 * n * den ≤ 2 * num + den)
    (high : 2 * num ≤ 2 * n * den + den)
    (strict : n % 2 = 1 → 2 * n * den < 2 * num + den ∧ 2 * num < 2 * n * den + den) :
    roundHalfEven num den = n := by
  have whole := Nat.div_add_mod num den
  have hr := Nat.mod_lt num hd
  unfold roundHalfEven
  simp only [beq_iff_eq]
  generalize num / den = q at *
  generalize num % den = r at *
  -- The integer is the quotient or its successor.
  have hq : n = q ∨ n = q + 1 := by
    have h₁ : q ≤ n := by
      by_contra h
      have : den * (n + 1) ≤ den * q := Nat.mul_le_mul_left den (by omega)
      nlinarith
    have h₂ : n ≤ q + 1 := by
      by_contra h
      have : den * (q + 2) ≤ den * n := Nat.mul_le_mul_left den (by omega)
      nlinarith
    omega
  rcases hq with rfl | rfl
  · have hlt : 2 * r ≤ den := by nlinarith
    split
    · rfl
    · rw [if_pos (by omega)]
      have : n % 2 ≠ 1 := fun odd => by
        have := (strict odd).2
        nlinarith
      omega
  · have hlt : den ≤ 2 * r := by nlinarith
    rw [if_neg (by omega)]
    split
    · next tie =>
      have : (q + 1) % 2 ≠ 1 := fun odd => by
        have := (strict odd).1
        nlinarith
      omega
    · rfl

theorem roundHalfEven_eq {num den n : ℕ} (hd : 0 < den) (low : (n : ℚ) - 1 / 2 ≤ num / den)
    (high : (num / den : ℚ) ≤ n + 1 / 2)
    (strict : n % 2 = 1 → (n : ℚ) - 1 / 2 < num / den ∧ (num / den : ℚ) < n + 1 / 2) :
    roundHalfEven num den = n := by
  have hd' : (0 : ℚ) < den := by exact_mod_cast hd
  rw [le_div_iff₀ hd'] at low
  rw [div_le_iff₀ hd'] at high
  rw [lt_div_iff₀ hd', div_lt_iff₀ hd'] at strict
  have low : (2 * n * den : ℚ) ≤ 2 * num + den := by linarith
  have high : (2 * num : ℚ) ≤ 2 * n * den + den := by linarith
  refine roundHalfEven_eq_of_le hd (by exact_mod_cast low) (by exact_mod_cast high) fun odd => ?_
  obtain ⟨h₁, h₂⟩ := strict odd
  have h₁ : (2 * n * den : ℚ) < 2 * num + den := by linarith
  have h₂ : (2 * num : ℚ) < 2 * n * den + den := by linarith
  exact ⟨by exact_mod_cast h₁, by exact_mod_cast h₂⟩

/-- Where the cell of `m * 2 ^ e` lies, in units of `2 ^ e`. -/
theorem RoundsTo.bounds {m : ℕ} {e : ℤ} {q : ℚ} (hm : 0 < m) (h : RoundsTo m e q) :
    (m : ℚ) - 1 / 2 ≤ q / 2 ^ e ∧ q / 2 ^ e ≤ m + 1 / 2 ∧
      (m % 2 = 1 → (m : ℚ) - 1 / 2 < q / 2 ^ e ∧ q / 2 ^ e < m + 1 / 2) ∧
      (m = 2 ^ 52 → -1074 < e → (m : ℚ) - 1 / 4 ≤ q / 2 ^ e) := by
  obtain ⟨low, high, strict⟩ := h
  have unit : q / 2 ^ (e - 2) = 4 * (q / 2 ^ e) := by
    rw [zpow_sub₀ two_ne_zero]
    field_simp
    norm_num
  rw [unit] at low high strict
  generalize q / 2 ^ e = t at *
  have hlow : (4 * m - 2 : ℚ) ≤ (cell m e).low ∧
      (m = 2 ^ 52 → -1074 < e → (4 * m - 1 : ℚ) ≤ (cell m e).low) := by
    unfold cell
    simp only [Bool.and_eq_true, beq_iff_eq, decide_eq_true_eq, Nat.pow_eq]
    split
    · push_cast [show 1 ≤ 4 * m by omega]
      exact ⟨by linarith, fun _ _ => le_refl _⟩
    · next h =>
      push_cast [show 2 ≤ 4 * m by omega]
      exact ⟨le_refl _, fun h₁ h₂ => absurd ⟨h₁, h₂⟩ h⟩
  have hhigh : ((cell m e).high : ℚ) = 4 * m + 2 := by
    unfold cell
    push_cast
    rfl
  rw [hhigh] at high strict
  refine ⟨by linarith, by linarith, fun odd => ?_, fun h₁ h₂ => ?_⟩
  · have open_ : (cell m e).closed = false := by
      unfold cell
      simp [odd]
    obtain ⟨h₁, h₂⟩ := strict open_
    exact ⟨by linarith, by linarith⟩
  · have := hlow.2 h₁ h₂
    linarith

/-- The exponent of a number in the cell of a float is the one of the float, unless the number
lies below a power of two. -/
theorem ratioExponent_eq {m num den : ℕ} {e : ℤ} (canonical : Canonical m e) (hm : 0 < m)
    (hn : 0 < num) (hd : 0 < den) (h : RoundsTo m e (num / den)) :
    ratioExponent num den = e ∨
      (ratioExponent num den = e - 1 ∧ m = 2 ^ 52 ∧ -1074 < e ∧
        (num / den : ℚ) / 2 ^ e < 2 ^ 52) := by
  obtain ⟨least, below, above⟩ := ratioExponent_spec hn hd
  obtain ⟨low, high, -, power⟩ := h.bounds hm
  obtain ⟨small, hlow, -, normal⟩ := canonical
  have hpos : (0 : ℚ) < 2 ^ e := by positivity
  have scaled : ∀ k : ℤ, (2 : ℚ) ^ k = 2 ^ (k - e) * 2 ^ e := fun k => by
    rw [← zpow_add₀ two_ne_zero, sub_add_cancel]
  generalize ratioExponent num den = E at *
  rw [scaled, ← div_lt_iff₀ hpos] at below
  rw [scaled (E + 52), ← le_div_iff₀ hpos] at above
  generalize (num / den : ℚ) / 2 ^ e = t at *
  have hm' : (m : ℚ) ≤ 2 ^ 53 - 1 := by
    have : (m : ℚ) + 1 ≤ 2 ^ 53 := by exact_mod_cast small
    linarith
  have upper : E ≤ e := by
    by_contra h
    have reached := above.resolve_left (by omega)
    have : (2 : ℚ) ^ (53 : ℤ) ≤ 2 ^ (E + 52 - e) := zpow_le_zpow_right₀ one_le_two (by omega)
    norm_num at this
    linarith
  rcases upper.eq_or_lt with heq | hlt
  · exact Or.inl heq
  · right
    have hnormal : (2 ^ 52 : ℚ) ≤ m := by
      have := normal.resolve_left (by omega)
      exact_mod_cast this
    have hbelow : t < 2 ^ 52 := by
      have : (2 : ℚ) ^ (E + 53 - e) ≤ 2 ^ (52 : ℤ) := zpow_le_zpow_right₀ one_le_two (by omega)
      exact below.trans_le this
    have hpower : m = 2 ^ 52 := by
      have : (m : ℚ) < 2 ^ 52 + 1 := by linarith
      have : m < 2 ^ 52 + 1 := by exact_mod_cast this
      have : 2 ^ 52 ≤ m := by exact_mod_cast hnormal
      omega
    refine ⟨?_, hpower, by omega, hbelow⟩
    by_contra hne
    have : (2 : ℚ) ^ (E + 53 - e) ≤ 2 ^ (51 : ℤ) := zpow_le_zpow_right₀ one_le_two (by omega)
    norm_num at this
    linarith

/-- The ratio that is rounded at an exponent, whichever side of it the power is on. -/
theorem roundAt_eq {num den n : ℕ} (hd : 0 < den) (E : ℤ)
    (low : (n : ℚ) - 1 / 2 ≤ num / den / 2 ^ E) (high : (num / den / 2 ^ E : ℚ) ≤ n + 1 / 2)
    (strict : n % 2 = 1 → (n : ℚ) - 1 / 2 < num / den / 2 ^ E ∧
      (num / den / 2 ^ E : ℚ) < n + 1 / 2) :
    (if 0 ≤ E then roundHalfEven num (den * Nat.pow 2 E.toNat)
      else roundHalfEven (num * Nat.pow 2 (-E).toNat) den) = n := by
  split
  · next h =>
    obtain ⟨k, rfl⟩ := Int.eq_ofNat_of_zero_le h
    have ratio : (num / den / 2 ^ (k : ℤ) : ℚ) = num / (den * Nat.pow 2 k : ℕ) := by
      rw [div_div, zpow_natCast, Nat.pow_eq]
      push_cast
      rfl
    rw [ratio] at low high strict
    exact roundHalfEven_eq (Nat.mul_pos hd (Nat.pow_pos two_pos)) low high strict
  · next h =>
    obtain ⟨k, hk⟩ := Int.eq_ofNat_of_zero_le (show 0 ≤ -E by omega)
    obtain rfl : E = -(k : ℤ) := by omega
    have ratio : (num / den / 2 ^ (-(k : ℤ)) : ℚ) = (num * Nat.pow 2 k : ℕ) / den := by
      rw [zpow_neg, zpow_natCast, Nat.pow_eq, div_inv_eq_mul, div_mul_eq_mul_div]
      push_cast
      rfl
    rw [ratio] at low high strict
    rw [hk, Int.toNat_natCast]
    exact roundHalfEven_eq hd low high strict

/-- Every ratio in the cell of a float yields the bits of the float. -/
theorem nearestBits_eq {m num den : ℕ} {e : ℤ} (canonical : Canonical m e) (hm : 0 < m)
    (hn : 0 < num) (hd : 0 < den) (h : RoundsTo m e (num / den)) :
    nearestBits num den = magnitudeBits m e := by
  obtain ⟨low, high, strict, power⟩ := h.bounds hm
  obtain ⟨small, hlow, hhigh, -⟩ := id canonical
  have finite : magnitudeBits m e ≤ infinityBits := by
    unfold magnitudeBits infinityBits
    rw [Nat.pow_eq]
    omega
  unfold nearestBits
  rw [if_neg (by simpa using hn.ne')]
  simp only
  rcases ratioExponent_eq canonical hm hn hd h with heq | ⟨heq, rfl, hlt, below⟩
  · rw [heq, roundAt_eq hd e low high strict]
    exact min_eq_left finite
  · -- The mantissa is rounded up to the next power of two, and the carry raises the exponent.
    have half : (num / den / 2 ^ (e - 1) : ℚ) = 2 * (num / den / 2 ^ e) := by
      rw [zpow_sub₀ two_ne_zero]
      field_simp
    have power := power rfl hlt
    have mantissa := @roundAt_eq num den (2 ^ 53) hd (e - 1)
      (by rw [half]; push_cast at power ⊢; linarith) (by rw [half]; push_cast; linarith)
      (fun odd => by norm_num at odd)
    rw [heq, mantissa, Nat.pow_eq]
    have same : (e - 1 + 1074).toNat * 2 ^ 52 + 2 ^ 53 = magnitudeBits (2 ^ 52) e := by
      unfold magnitudeBits
      omega
    rw [same]
    exact min_eq_left finite

/-! ## Numbers in digits -/

theorem RoundsTo.pos {m : ℕ} {e : ℤ} {q : ℚ} (hm : 0 < m) (h : RoundsTo m e q) : 0 < q := by
  have low := (h.bounds hm).1
  have hm' : (1 : ℚ) ≤ m := by exact_mod_cast hm
  have : 0 < q / 2 ^ e := by linarith
  rwa [div_pos_iff_of_pos_right (by positivity)] at this

/-- The numbers that round to a finite float have a few hundred digits before or after the point. -/
theorem RoundsTo.range {m : ℕ} {e : ℤ} {q : ℚ} (canonical : Canonical m e) (hm : 0 < m)
    (h : RoundsTo m e q) : (10 : ℚ) ^ (-401 : ℤ) ≤ q ∧ q < 10 ^ (400 : ℤ) := by
  obtain ⟨low, high, -⟩ := h.bounds hm
  obtain ⟨small, hlow, hhigh, -⟩ := canonical
  have hpos : (0 : ℚ) < 2 ^ e := by positivity
  have hm' : (1 : ℚ) ≤ m := by exact_mod_cast hm
  have hsmall : (m : ℚ) + 1 ≤ 2 ^ 53 := by exact_mod_cast small
  rw [le_div_iff₀ hpos] at low
  rw [div_le_iff₀ hpos] at high
  constructor
  · calc (10 : ℚ) ^ (-401 : ℤ) ≤ 8 ^ (-401 : ℤ) := by
          rw [zpow_neg, zpow_neg, zpow_ofNat, zpow_ofNat]
          gcongr
          norm_num
      _ = 2 ^ (-1203 : ℤ) := by
          rw [show (8 : ℚ) = 2 ^ (3 : ℤ) by norm_num, ← zpow_mul]
          norm_num
      _ ≤ 2 ^ (e - 1) := zpow_le_zpow_right₀ one_le_two (by omega)
      _ = (1 - 1 / 2) * 2 ^ e := by
          rw [zpow_sub₀ two_ne_zero]
          ring
      _ ≤ (m - 1 / 2) * 2 ^ e := by gcongr
      _ ≤ q := low
  · calc q ≤ (m + 1 / 2) * 2 ^ e := high
      _ < 2 ^ (53 : ℤ) * 2 ^ e := by
          gcongr
          norm_num at hsmall ⊢
          linarith
      _ = 2 ^ (53 + e) := by rw [zpow_add₀ two_ne_zero]
      _ ≤ 2 ^ (1200 : ℤ) := zpow_le_zpow_right₀ one_le_two (by omega)
      _ = 8 ^ (400 : ℤ) := by
          rw [show (8 : ℚ) = 2 ^ (3 : ℤ) by norm_num, ← zpow_mul]
          norm_num
      _ ≤ 10 ^ (400 : ℤ) := by
          rw [zpow_ofNat, zpow_ofNat]
          gcongr
          norm_num

/-- The number of digits says between which powers of ten a number lies. -/
theorem digits_mul_bounds {digits : ℕ} (hdigits : 0 < digits) (exponent : ℤ) :
    (10 : ℚ) ^ ((Nat.toDigits 10 digits).length + exponent - 1) ≤ digits * 10 ^ exponent ∧
      (digits * 10 ^ exponent : ℚ) < 10 ^ ((Nat.toDigits 10 digits).length + exponent) := by
  obtain ⟨hlow, hhigh⟩ := toDigits_bounds hdigits
  have hlen : 0 < (Nat.toDigits 10 digits).length := Nat.length_toDigits_pos
  generalize (Nat.toDigits 10 digits).length = len at *
  constructor
  · rw [show (len : ℤ) + exponent - 1 = (len - 1 : ℕ) + exponent by omega,
      zpow_add₀ (by norm_num), zpow_natCast]
    gcongr
    exact_mod_cast hlow
  · rw [zpow_add₀ (by norm_num), zpow_natCast]
    gcongr
    exact_mod_cast hhigh

/-- Every way to write a number in the cell of a float is read as the float. -/
theorem ofDecimal_eq {m digits : ℕ} {e exponent : ℤ} (canonical : Canonical m e) (hm : 0 < m)
    (h : RoundsTo m e (digits * 10 ^ exponent)) (negative : Bool) :
    ofDecimal negative digits exponent = ofMagnitude negative (magnitudeBits m e) := by
  have hdigits : 0 < digits := by
    have := h.pos hm
    by_contra h0
    obtain rfl : digits = 0 := by omega
    simp at this
  obtain ⟨least, most⟩ := h.range canonical hm
  obtain ⟨hlow, hhigh⟩ := digits_mul_bounds hdigits exponent
  unfold ofDecimal
  simp only
  generalize (Nat.toDigits 10 digits).length = len at *
  have hsmall : ¬ (len : ℤ) + exponent < -400 := by
    intro hlt
    have : (10 : ℚ) ^ ((len : ℤ) + exponent) ≤ 10 ^ (-401 : ℤ) :=
      zpow_le_zpow_right₀ (by norm_num) (by omega)
    linarith
  have hlarge : ¬ 400 < (len : ℤ) + exponent := by
    intro hlt
    have : (10 : ℚ) ^ (400 : ℤ) ≤ 10 ^ ((len : ℤ) + exponent - 1) :=
      zpow_le_zpow_right₀ (by norm_num) (by omega)
    linarith
  rw [if_neg (by simpa using ⟨hdigits.ne', by omega⟩), if_neg hlarge]
  split
  · next hpos =>
    obtain ⟨k, rfl⟩ := Int.eq_ofNat_of_zero_le hpos
    have ratio : (digits * 10 ^ (k : ℤ) : ℚ) = (digits * 10 ^ k : ℕ) / (1 : ℕ) := by
      rw [zpow_natCast]
      push_cast
      rw [div_one]
    rw [ratio] at h
    rw [nearest, Int.toNat_natCast, Nat.pow_eq,
      nearestBits_eq canonical hm (Nat.mul_pos hdigits (Nat.pow_pos (by decide))) one_pos h]
  · next hneg =>
    obtain ⟨k, hk⟩ := Int.eq_ofNat_of_zero_le (show 0 ≤ -exponent by omega)
    obtain rfl : exponent = -(k : ℤ) := by omega
    have ratio : (digits * 10 ^ (-(k : ℤ)) : ℚ) = digits / (10 ^ k : ℕ) := by
      rw [zpow_neg, zpow_natCast, div_eq_mul_inv]
      push_cast
      rfl
    rw [ratio] at h
    rw [nearest, hk, Int.toNat_natCast, Nat.pow_eq,
      nearestBits_eq canonical hm hdigits (Nat.pow_pos (by decide)) h]

end Stepwise.Decimal
