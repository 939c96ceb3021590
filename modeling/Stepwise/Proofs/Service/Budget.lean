import Stepwise.Proofs.Decimal.Operations
import Stepwise.Service.Budget

/-!
# What is left of a budget

The milliseconds that are left are computed in floats and then cut off.  As long as the floats are
less than a millisecond off (`Budget.Precise`), what is left is never more than there is
(`Budget.le_of_remaining?`).  They are for the clocks and budgets of thirty thousand years
(`Budget.precise_of_le`), and then nearly all of a budget is left as it begins
(`Budget.exists_fresh`).
-/

namespace Stepwise.Budget

variable {start budgetMs now left : Int} {deadlineAt : Float}

/-- The milliseconds that are left of a budget are less than a millisecond off before they are cut
off. -/
def Precise (start budgetMs now : Int) : Prop :=
  ∀ deadlineAt, deadline? start budgetMs = some deadlineAt →
    ∃ v, Decimal.value? ((deadlineAt - seconds now) * thousand) = some v ∧
      |v - (start + budgetMs - now : Int)| < 1

theorem value?_thousand : Decimal.value? thousand = some 1000 :=
  Decimal.value?_ofInt (by decide)

theorem thousand_pos : (0 : ℚ) < 1000 := by norm_num

theorem le_largest {bound : ℚ} (h : bound ≤ 2 ^ 64) : bound ≤ 2 ^ (1023 : ℤ) := by
  refine h.trans ?_
  rw [← zpow_ofNat]
  exact zpow_le_zpow_right₀ one_le_two (by decide)

/-- The seconds on a clock are off by the rounding of the quotient. -/
theorem within_seconds {ms : Int} (small : |ms| ≤ 2 ^ 50) :
    Decimal.Within (seconds ms) (ms / 1000) (1 / 7900) := by
  have whole : Decimal.Within (Decimal.ofInt ms) ms 0 :=
    .of_value (Decimal.value?_ofInt (small.trans_lt (by decide)))
  have size : |(ms : ℚ)| ≤ 2 ^ 50 := by exact_mod_cast small
  have bound : |(ms : ℚ) / 1000| + 0 / |(1000 : ℚ)| ≤ 2 ^ 50 / 1000 := by
    rw [zero_div, add_zero, abs_div, abs_of_pos thousand_pos]
    gcongr
  refine (whole.div value?_thousand (by norm_num) bound (le_largest (by norm_num))).mono ?_
  have := Decimal.halfUnit_le (2 ^ 50 / 1000)
  norm_num at this ⊢
  linarith

/-- The end of a budget is the sum of two times in seconds. -/
theorem within_deadline (small : |start| + |budgetMs| ≤ 2 ^ 50)
    (deadline : deadline? start budgetMs = some deadlineAt) :
    Decimal.Within deadlineAt ((start + budgetMs) / 1000) (3 / 7900) := by
  have size : |(start : ℚ)| + |(budgetMs : ℚ)| ≤ 2 ^ 50 := by exact_mod_cast small
  have hstart := abs_nonneg start
  have hbudget := abs_nonneg budgetMs
  have ends : deadlineAt = seconds start + seconds budgetMs := by
    obtain ⟨ms, hms, rfl⟩ := Option.map_eq_some_iff.1 deadline
    rw [Decimal.ofInt?] at hms
    split at hms
    · cases hms
      rfl
    · cases hms
  have bound : |(start / 1000 + budgetMs / 1000 : ℚ)| + (1 / 7900 + 1 / 7900) ≤
      2 ^ 50 / 1000 + 1 := by
    have := abs_add_le (start : ℚ) budgetMs
    rw [← add_div, abs_div, abs_of_pos thousand_pos]
    linarith
  have unit := Decimal.halfUnit_le (2 ^ 50 / 1000 + 1)
  rw [ends, add_div]
  refine ((within_seconds (by omega)).add (within_seconds (by omega)) bound
    (le_largest (by norm_num))).mono ?_
  linarith

/-- Floats are exact enough for the clocks and budgets of thirty thousand years. -/
theorem precise_of_le (small : |start| + |budgetMs| + |now| ≤ 2 ^ 50) :
    Precise start budgetMs now := by
  intro deadlineAt deadline
  have size : |(start : ℚ)| + |(budgetMs : ℚ)| + |(now : ℚ)| ≤ 2 ^ 50 := by exact_mod_cast small
  have hstart := abs_nonneg start
  have hbudget := abs_nonneg budgetMs
  have hnow := abs_nonneg now
  have total : |(start + budgetMs - now : ℚ)| ≤ 2 ^ 50 := by
    have := abs_add_le (start : ℚ) budgetMs
    have := abs_sub (start + budgetMs : ℚ) now
    linarith
  -- Each of the operations is off by a little more than an eight-thousandth of a second, and the
  -- last one by as much of a millisecond.
  have unit := Decimal.halfUnit_le (2 ^ 50 / 1000 + 1)
  have last := Decimal.halfUnit_le (2 ^ 50 + 1)
  have rest : Decimal.Within (deadlineAt - seconds now) ((start + budgetMs - now) / 1000)
      (5 / 7900) := by
    have bound : |((start + budgetMs) / 1000 - now / 1000 : ℚ)| + (3 / 7900 + 1 / 7900) ≤
        2 ^ 50 / 1000 + 1 := by
      rw [← sub_div, abs_div, abs_of_pos thousand_pos]
      linarith
    rw [sub_div]
    refine ((within_deadline (by omega) deadline).sub (within_seconds (by omega)) bound
      (le_largest (by norm_num))).mono ?_
    linarith
  have bound : |((start + budgetMs - now) / 1000 * 1000 : ℚ)| + 5 / 7900 * |(1000 : ℚ)| ≤
      2 ^ 50 + 1 := by
    rw [div_mul_cancel₀ _ thousand_pos.ne', abs_of_pos thousand_pos]
    linarith
  obtain ⟨v, value, off⟩ := rest.mul value?_thousand bound (le_largest (by norm_num))
  refine ⟨v, value, ?_⟩
  rw [div_mul_cancel₀ _ thousand_pos.ne', abs_of_pos thousand_pos] at off
  push_cast
  linarith

/-- A budget of a second that starts when the clock is at zero. -/
theorem precise_second : Precise 0 1000 0 := precise_of_le (by decide)

/-- What is left is not more than there is. -/
theorem le_of_remaining? (precise : Precise start budgetMs now)
    (deadline : deadline? start budgetMs = some deadlineAt)
    (remaining : remaining? now deadlineAt = some left) :
    left ≤ max 0 (start + budgetMs - now) := by
  obtain ⟨v, value, near⟩ := precise deadlineAt deadline
  obtain ⟨n, cut, rfl⟩ := Option.map_eq_some_iff.1 remaining
  have below := Decimal.le_of_truncate? cut value
  obtain ⟨exact_, hexact⟩ : ∃ exact_ : Int, exact_ = start + budgetMs - now := ⟨_, rfl⟩
  rw [← hexact] at near ⊢
  refine max_le (le_max_left _ _) ?_
  rcases le_max_iff.1 below with none | some
  · exact le_max_of_le_left (by exact_mod_cast none)
  · have close : (n : ℚ) < exact_ + 1 := by
      have := (abs_lt.1 near).2
      linarith
    refine le_max_of_le_right (Int.le_of_lt_add_one ?_)
    exact_mod_cast close

/-! ## Budgets that have just begun -/

/-- The milliseconds that are left of a budget as it begins, before they are cut off. -/
def fresh? (now budgetMs : Int) : Option ℚ :=
  (deadline? now budgetMs).bind fun deadlineAt =>
    Decimal.value? ((deadlineAt - seconds now) * thousand)

theorem remaining?_eq (now : Int) (deadlineAt : Float) :
    remaining? now deadlineAt =
      (Decimal.value? ((deadlineAt - seconds now) * thousand)).map fun v => max 0 ⌊v⌋ :=
  Decimal.truncate?_above_zero _

/-- Nearly all of a budget is left as it begins. -/
theorem exists_fresh (small : 2 * |now| + |budgetMs| ≤ 2 ^ 50) :
    ∃ v, fresh? now budgetMs = some v ∧ |v - budgetMs| < 1 := by
  have deadline : deadline? now budgetMs =
      some (seconds now + Decimal.ofInt budgetMs / thousand) := by
    rw [deadline?, Decimal.ofInt?_eq_some (by have := abs_nonneg now; omega)]
    rfl
  obtain ⟨v, value, near⟩ := (precise_of_le (by omega) : Precise now budgetMs now) _ deadline
  refine ⟨v, by rw [fresh?, deadline]; exact value, ?_⟩
  rwa [add_sub_cancel_left] at near

end Stepwise.Budget
