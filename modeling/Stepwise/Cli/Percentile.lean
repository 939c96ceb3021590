import Stepwise.Decimal.Binary

/-!
# Percentiles

The percentile of a sorted list is the item nearest to the given share of the way from the first
to the last.
-/

namespace Stepwise.Cli

/-- The item at an index; a negative one counts from the end. -/
def itemAt? (values : List Float) (index : Int) : Option Float :=
  if 0 ≤ index then values[index.toNat]?
  else if (values.length : Int) + index < 0 then none
  else values[((values.length : Int) + index).toNat]?

/-- The index of a percentile in a list with a last index, before it is bounded. -/
def percentileIndex? (last : Nat) (percent : Float) : Option Int :=
  Decimal.round? (percent / Decimal.ofInt 100 * Decimal.ofInt last)

/-- The percentile of sorted values; zero when there are none, and nothing when the share points
outside the list. -/
def percentile? (values : List Float) (percent : Float) : Option Float :=
  match values with
  | [] => some (Decimal.ofInt 0)
  | _ :: rest =>
    (percentileIndex? rest.length percent).bind fun index =>
      itemAt? values (min rest.length index)

end Stepwise.Cli
