import Stepwise.Cli.Percentile
import Stepwise.Cli.Report

/-!
# Benchmarks

A benchmark sends an expression many times, in windows: it sends as many as a window takes, waits
for all of them, and goes on with the next window.
-/

namespace Stepwise.Cli.Benchmark

/-- The sizes of the windows for a number of expressions. -/
def windowsOf (size : Nat) (positive : 0 < size) (remaining : Nat) : List Nat :=
  if _ : remaining = 0 then []
  else min size remaining :: windowsOf size positive (remaining - min size remaining)
termination_by remaining
decreasing_by omega

/-- The sizes of the windows; nothing if they would never end. -/
def windows? (count window : Int) : Option (List Nat) :=
  if count ≤ 0 then some []
  else if h : 0 < window then some (windowsOf window.toNat (by omega) count.toNat)
  else none

/-- What was measured. -/
structure Result where
  expression : String
  transport : String
  count : Int
  errors : Nat
  /-- The whole time, in seconds. -/
  total : Float
  /-- The time of each expression, in milliseconds. -/
  latencies : List Float

/-- A percentile of the latencies in a table. -/
def percentileText (sorted : List Float) (percent : Nat) : String :=
  Decimal.fixed 2 ((percentile? sorted (Decimal.ofInt percent)).getD (Decimal.ofInt 0)) ++ " ms"

/-- The result in a table. -/
def Result.table (r : Result) : Table :=
  let sorted := r.latencies.mergeSort fun a b => decide (a ≤ b)
  keyTable ("Benchmark: " ++ r.expression) [
    ("transport", r.transport),
    ("expressions", toString r.count),
    ("errors", toString r.errors),
    ("total", Decimal.fixed 3 r.total ++ " s"),
    ("throughput", if Decimal.ofInt 0 < r.total then
        Decimal.fixed 1 (Decimal.ofInt r.count / r.total) ++ " expr/s" else "-"),
    ("p50", percentileText sorted 50),
    ("p95", percentileText sorted 95),
    ("p99", percentileText sorted 99),
    ("max", match sorted.getLast? with
      | some x => Decimal.fixed 2 x ++ " ms"
      | none => "-")]

end Stepwise.Cli.Benchmark
