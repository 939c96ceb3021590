import Stepwise.Decimal.Binary

/-!
# Budgets

An expression has to be answered within its deadline, and each of its steps is sent with the
milliseconds that are left.  Times are floats in seconds, and the sums are done in floats.
-/

namespace Stepwise.Budget

/-- A thousand, the milliseconds in a second. -/
def thousand : Float := Decimal.ofInt 1000

/-- The seconds on a clock that shows milliseconds. -/
def seconds (milliseconds : Int) : Float :=
  Decimal.ofInt milliseconds / thousand

/-- The end of a budget that starts now, unless it is beyond the floats. -/
def deadline? (now budgetMs : Int) : Option Float :=
  (Decimal.ofInt? budgetMs).map fun ms => seconds now + ms / thousand

/-- The milliseconds that are left, not less than zero. -/
def remaining? (now : Int) (deadlineAt : Float) : Option Int :=
  (Decimal.truncate? ((deadlineAt - seconds now) * thousand)).map (max 0)

end Stepwise.Budget
