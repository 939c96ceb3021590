import Stepwise.Decimal.Layout
import Stepwise.Proofs.Decimal.Rounding

/-!
# The shortest digits of a float

`shortest` stops at the first grid of decimals with a point in the cell of the float.  The grid
with eighteen digits is fine enough for every float, so there is one (`roundsTo_shortest`).
-/

namespace Stepwise.Decimal

/-! ## One grid -/

theorem Cell.contains_of_holds {c : Cell} {scale point : ℕ} (pos : 0 < scale)
    (h : c.holds scale point = true) : c.Contains (point / scale) := by
  have hs : (0 : ℚ) < scale := by exact_mod_cast pos
  unfold Cell.holds at h
  split at h
  · next closed =>
    rw [Bool.and_eq_true, decide_eq_true_eq, decide_eq_true_eq] at h
    have low : (c.low : ℚ) * scale ≤ point := by exact_mod_cast h.1
    have high : (point : ℚ) ≤ c.high * scale := by exact_mod_cast h.2
    refine ⟨(le_div_iff₀ hs).2 low, (div_le_iff₀ hs).2 high, fun h => ?_⟩
    rw [closed] at h
    cases h
  · rw [Bool.and_eq_true, decide_eq_true_eq, decide_eq_true_eq] at h
    have low : (c.low : ℚ) * scale < point := by exact_mod_cast h.1
    have high : (point : ℚ) < c.high * scale := by exact_mod_cast h.2
    have low := (lt_div_iff₀ hs).2 low
    have high := (div_lt_iff₀ hs).2 high
    exact ⟨low.le, high.le, fun _ => ⟨low, high⟩⟩

theorem Cell.holds_of_lt {c : Cell} {scale point : ℕ} (low : c.low * scale < point)
    (high : point < c.high * scale) : c.holds scale point = true := by
  unfold Cell.holds
  split
  · simp [low.le, high.le]
  · simp [low, high]

theorem Cell.holds_of_onGrid {c : Cell} {scale step digits : ℕ}
    (h : c.onGrid scale step = some digits) : c.holds scale (digits * step) = true := by
  unfold Cell.onGrid at h
  simp only [Bool.and_eq_true] at h
  split at h
  · next both =>
    split at h
    · cases h
      exact both.1
    · split at h
      · cases h
        rcases Nat.mod_two_eq_zero_or_one (c.value * scale / step) with even | odd
        · rw [even]
          exact both.1
        · rw [odd]
          exact both.2
      · cases h
        exact both.2
  · split at h
    · next lower =>
      cases h
      exact lower
    · split at h
      · next upper =>
        cases h
        exact upper
      · cases h

/-- A grid that is no coarser than the upper half of a cell has a point in it. -/
theorem Cell.onGrid_ne_none {c : Cell} {scale step : ℕ} (pos : 0 < scale) (hstep : 0 < step)
    (low : c.low < c.value) (fine : step ≤ (c.high - c.value) * scale) :
    c.onGrid scale step ≠ none := by
  have hlow : c.low * scale < c.value * scale := Nat.mul_lt_mul_of_pos_right low pos
  have hhigh : c.value * scale + step ≤ c.high * scale := by
    have : c.value ≤ c.high := by
      by_contra h
      rw [Nat.sub_eq_zero_of_le (by omega), Nat.zero_mul] at fine
      omega
    calc c.value * scale + step ≤ c.value * scale + (c.high - c.value) * scale := by omega
      _ = c.high * scale := by rw [← Nat.add_mul, Nat.add_sub_cancel' this]
  have below := Nat.div_mul_le_self (c.value * scale) step
  have above : c.value * scale < (c.value * scale / step + 1) * step := by
    rw [Nat.add_mul, Nat.one_mul]
    exact Nat.lt_div_mul_add hstep
  have next : (c.value * scale / step + 1) * step = c.value * scale / step * step + step := by
    rw [Nat.add_mul, Nat.one_mul]
  have hit : c.holds scale (c.value * scale / step * step) = true ∨
      c.holds scale ((c.value * scale / step + 1) * step) = true := by
    by_cases exact_ : c.value * scale / step * step = c.value * scale
    · exact Or.inl (Cell.holds_of_lt (by omega) (by omega))
    · exact Or.inr (Cell.holds_of_lt (by omega) (by omega))
  unfold Cell.onGrid
  simp only [Bool.and_eq_true]
  split
  · split
    · simp
    · split <;> simp
  · split
    · simp
    · split
      · simp
      · next lower upper => exact absurd hit (not_or.2 ⟨lower, upper⟩)

/-! ## The search -/

/-- The unit of the grid with the leading power and a number of digits, and of the cell. -/
def gridScale (unitNum : ℕ) (exponent : ℤ) : ℕ :=
  if 0 ≤ exponent then unitNum else unitNum * Nat.pow 10 (-exponent).toNat

/-- The distance of two points on a grid. -/
def gridStep (unitDen : ℕ) (exponent : ℤ) : ℕ :=
  if 0 ≤ exponent then unitDen * Nat.pow 10 exponent.toNat else unitDen

theorem gridScale_pos {unitNum : ℕ} (pos : 0 < unitNum) (exponent : ℤ) :
    0 < gridScale unitNum exponent := by
  unfold gridScale
  split
  · exact pos
  · exact Nat.mul_pos pos (Nat.pow_pos (by decide))

theorem gridStep_pos {unitDen : ℕ} (pos : 0 < unitDen) (exponent : ℤ) :
    0 < gridStep unitDen exponent := by
  unfold gridStep
  split
  · exact Nat.mul_pos pos (Nat.pow_pos (by decide))
  · exact pos

theorem gridStep_div_gridScale {unitNum unitDen : ℕ} (hn : 0 < unitNum) (hd : 0 < unitDen)
    (exponent : ℤ) : (gridStep unitDen exponent : ℚ) / gridScale unitNum exponent =
      10 ^ exponent / (unitNum / unitDen) := by
  have hn' : (unitNum : ℚ) ≠ 0 := by exact_mod_cast hn.ne'
  have hd' : (unitDen : ℚ) ≠ 0 := by exact_mod_cast hd.ne'
  unfold gridStep gridScale
  split
  · next h =>
    obtain ⟨k, rfl⟩ := Int.eq_ofNat_of_zero_le h
    rw [Int.toNat_natCast, Nat.pow_eq, zpow_natCast]
    push_cast
    field_simp
  · next h =>
    obtain ⟨k, hk⟩ := Int.eq_ofNat_of_zero_le (show 0 ≤ -exponent by omega)
    obtain rfl : exponent = -(k : ℤ) := by omega
    rw [hk, Int.toNat_natCast, Nat.pow_eq, zpow_neg, zpow_natCast]
    push_cast
    field_simp

/-- The search ends on a grid with a hit, if there is one among those it looks at. -/
theorem Cell.search_spec {c : Cell} {unitNum unitDen : ℕ} {power : ℤ} {fuel places : ℕ}
    {last : ℕ} (from_ : places ≤ last) (upTo : last < places + fuel)
    (hit : c.onGrid (gridScale unitNum (power + 1 - last)) (gridStep unitDen (power + 1 - last)) ≠
      none) :
    ∃ digits exponent, c.search unitNum unitDen power fuel places = ⟨digits, exponent⟩ ∧
      c.onGrid (gridScale unitNum exponent) (gridStep unitDen exponent) = some digits := by
  induction fuel generalizing places with
  | zero => omega
  | succ fuel ih =>
    rw [Cell.search, ← gridScale, ← gridStep]
    cases h : c.onGrid (gridScale unitNum (power + 1 - places))
        (gridStep unitDen (power + 1 - places)) with
    | some digits => exact ⟨digits, _, rfl, h⟩
    | none =>
      have hne : places ≠ last := by
        rintro rfl
        exact hit h
      exact ih (by omega) (by omega)

theorem unit_eq {e : ℤ} {unitNum unitDen : ℕ}
    (hnum : unitNum = if 0 ≤ e then Nat.pow 2 e.toNat else 1)
    (hden : unitDen = if 0 ≤ e then 1 else Nat.pow 2 (-e).toNat) :
    0 < unitNum ∧ 0 < unitDen ∧ (unitNum / unitDen : ℚ) = 2 ^ e := by
  by_cases h : 0 ≤ e
  · obtain ⟨k, rfl⟩ := Int.eq_ofNat_of_zero_le h
    rw [if_pos h, Int.toNat_natCast, Nat.pow_eq] at hnum
    rw [if_pos h] at hden
    rw [hnum, hden, zpow_natCast]
    refine ⟨by positivity, one_pos, ?_⟩
    push_cast
    rw [div_one]
  · obtain ⟨k, hk⟩ := Int.eq_ofNat_of_zero_le (show 0 ≤ -e by omega)
    obtain rfl : e = -(k : ℤ) := by omega
    rw [if_neg h] at hnum
    rw [if_neg h, hk, Int.toNat_natCast, Nat.pow_eq] at hden
    rw [hnum, hden, zpow_neg, zpow_natCast]
    refine ⟨one_pos, by positivity, ?_⟩
    push_cast
    rw [one_div]

/-- The grid with eighteen digits has a point in the cell of every float. -/
theorem onGrid_eighteen {m unitNum unitDen : ℕ} {e power : ℤ} (small : m < 2 ^ 53) (hm : 0 < m)
    (hnum : 0 < unitNum) (hden : 0 < unitDen)
    (leading : (10 : ℚ) ^ power ≤ 4 * m * (unitNum / unitDen)) :
    (cell m e).onGrid (gridScale unitNum (power + 1 - (18 : ℕ)))
      (gridStep unitDen (power + 1 - (18 : ℕ))) ≠ none := by
  have hscale := gridScale_pos hnum (power + 1 - (18 : ℕ))
  have hscale' : (0 : ℚ) < gridScale unitNum (power + 1 - (18 : ℕ)) := by exact_mod_cast hscale
  have hunit : (0 : ℚ) < unitNum / unitDen := by positivity
  have hm' : (m : ℚ) < 2 ^ 53 := by exact_mod_cast small
  refine Cell.onGrid_ne_none hscale (gridStep_pos hden _) ?_ ?_
  · unfold cell
    simp only
    split <;> omega
  · have width : (cell m e).high - (cell m e).value = 2 := by
      unfold cell
      simp only
      omega
    have fine : (gridStep unitDen (power + 1 - (18 : ℕ)) : ℚ) /
        gridScale unitNum (power + 1 - (18 : ℕ)) ≤ 2 := by
      rw [gridStep_div_gridScale hnum hden, div_le_iff₀ hunit,
        show power + 1 - (18 : ℕ) = power - 17 by push_cast; ring, zpow_sub₀ (by norm_num),
        div_le_iff₀ (by positivity)]
      calc (10 : ℚ) ^ power ≤ 4 * m * (unitNum / unitDen) := leading
        _ ≤ 2 * 10 ^ (17 : ℤ) * (unitNum / unitDen) := by
            refine mul_le_mul_of_nonneg_right ?_ hunit.le
            rw [zpow_ofNat]
            linarith
        _ = 2 * (unitNum / unitDen) * 10 ^ (17 : ℤ) := by ring
    rw [div_le_iff₀ hscale'] at fine
    rw [width]
    exact_mod_cast fine

/-- The shortest digits of a float stand for a number that rounds to it. -/
theorem roundsTo_shortest {m : ℕ} {e : ℤ} (small : m < 2 ^ 53) (hm : 0 < m) :
    RoundsTo m e ((shortest m e).digits * 10 ^ (shortest m e).exponent) := by
  unfold shortest
  simp only
  generalize hnum : (if 0 ≤ e - 2 then Nat.pow 2 (e - 2).toNat else 1 : ℕ) = unitNum
  generalize hden : (if 0 ≤ e - 2 then 1 else Nat.pow 2 (-(e - 2)).toNat : ℕ) = unitDen
  obtain ⟨hn, hd, unit⟩ := unit_eq hnum.symm hden.symm
  have hvalue : 0 < (cell m e).value * unitNum := Nat.mul_pos (Nat.mul_pos (by decide) hm) hn
  have leading := pow_leadingPower_le hvalue hd
  generalize leadingPower _ _ = power at *
  have leading : (10 : ℚ) ^ power ≤ 4 * m * (unitNum / unitDen) := by
    convert leading using 1
    unfold cell
    push_cast
    ring
  have search := @Cell.search_spec (cell m e) unitNum unitDen power 18 1 18 (by decide) (by decide)
  obtain ⟨digits, exponent, found, hit⟩ := search (onGrid_eighteen small hm hn hd leading)
  rw [found]
  have inside := Cell.contains_of_holds (gridScale_pos hn _) (Cell.holds_of_onGrid hit)
  unfold RoundsTo
  convert inside using 1
  rw [← unit, mul_div_assoc, ← gridStep_div_gridScale hn hd]
  push_cast
  ring

end Stepwise.Decimal
