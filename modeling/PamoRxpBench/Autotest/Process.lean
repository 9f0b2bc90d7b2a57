import PamoRxpBench.RegexTest.StatsDump
import Mathlib.Data.Rat.Defs
import Mathlib.Algebra.Order.Field.Rat
import Mathlib.Algebra.Order.BigOperators.Group.List

/-!
# `autotest`: the RXP latency of a run

From the statistics of the workers to the number that is plotted: the results `regex-test`
prints (`printedResults`) are read into one row (`resultRow`), and `process_rgx_cols` of
`process.py` recombines the averages of the sixteen buckets into one weighted average
(`weightedAvgLatencyCycles`). Arithmetic on the row is exact.
-/

namespace PamoRxpBench
namespace Autotest

open RegexTest

/-! ## The row of a run -/

/-- A row of the data frame: the columns printed for the regex engine that it has. -/
abbrev Row := RgxColumn → Option ℚ

/-- One more printed result. -/
def Row.set (row : Row) (r : RgxColumn × UInt64) : Row :=
  Function.update row r.1 (some (r.2.toNat : ℚ))

/-- The printed results as a row. A result printed twice is read as its last value. -/
def resultRow (results : List (RgxColumn × UInt64)) : Row := results.foldl Row.set fun _ => none

/-- The regex statistics of the workers, each after its own sequence of dequeue bursts. -/
def runStats (args : AppArgs) (ticksPerUs : UInt64) (runs : List (List (List Dequeued))) :
    List (Option (AppStats args.rgxStatsHistogramBucketCnt)) :=
  runs.map fun bursts => some ⟨some (dequeueRun args ticksPerUs bursts).buckets, none, none⟩

/-- What `regex-test` prints for the regex engine after a run. A run in which a worker wrote
past its statistics array has no defined output. -/
def printedResults (args : AppArgs) (ticksPerUs : UInt64) (runs : List (List (List Dequeued))) :
    Option (List (RgxColumn × UInt64)) :=
  if ∀ bursts ∈ runs, (dequeueRun args ticksPerUs bursts).wild = 0 then
    (statsReport args (runStats args ticksPerUs runs)).map fun report =>
      rgxResults args report.buckets
  else none

/-! ## `process_rgx_cols` -/

/-- `range(4, 65, 4)`. -/
def bucketSizes : List ℕ := List.range' 4 16 4

/-- The loop over the bucket sizes, with `total_latency` and `total_packets` so far. A column
the row does not have is a `KeyError`. -/
def sumBuckets (row : Row) : List ℕ → ℚ → ℚ → Option (ℚ × ℚ)
  | [], totalLatency, totalPackets => some (totalLatency, totalPackets)
  | bs :: rest, totalLatency, totalPackets =>
    (row ⟨bs, .deqAvgRttCycles⟩).bind fun avg =>
      (row ⟨bs, .deqBrstPktsCnt⟩).bind fun cnt =>
        sumBuckets row rest (totalLatency + avg * cnt) (totalPackets + cnt)

/-- `rgx_weighted_avg_latency_cycles` of a row. -/
def weightedAvgLatencyCycles (row : Row) : Option ℚ :=
  (sumBuckets row bucketSizes 0 0).map fun total =>
    if total.2 > 0 then total.1 / total.2 else 0

/-- The latency reported for a run. -/
def reportedLatency (args : AppArgs) (ticksPerUs : UInt64) (runs : List (List (List Dequeued))) :
    Option ℚ :=
  (printedResults args ticksPerUs runs).bind fun results =>
    weightedAvgLatencyCycles (resultRow results)

end Autotest
end PamoRxpBench
