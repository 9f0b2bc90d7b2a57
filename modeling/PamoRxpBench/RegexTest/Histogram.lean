import PamoRxpBench.RegexTest.Worker
import Mathlib.Algebra.BigOperators.Fin

/-!
# `regex-test`: the burst histogram over a run

The number of buckets that `args_parse` derives, the runs of a worker whose `worker_init`
succeeded, and what the histogram should add up to at the end of every iteration.
-/

namespace PamoRxpBench
namespace RegexTest

open Custody

variable {M : Type} [DecidableEq M] {args : AppArgs}

/-- The derived property at the end of `args_parse`; `none` is the division by zero. -/
def argsParseBucketCnt (args : AppArgs) : Option ℕ :=
  if args.rgxStatsHistogramBucketSize = 0 then none else some args.rgxStatsHistogramBucketCnt

/-- `worker_init`, when its other allocations succeed: `rte_calloc` returns `NULL` for an array
of no buckets. -/
def workerInit (args : AppArgs) (engine : Engine) (mem : M → PktData) : Option (Worker args M) :=
  if engine = .regex ∧ args.rgxStatsHistogramBucketCnt = 0 then none
  else some (Worker.init args mem)

/-- The largest burst: the calls take the burst size as a `uint16_t`. -/
def AppArgs.maxBurst (args : AppArgs) : ℕ := args.portBurstSize % 2 ^ 16

/-- What the calls promise, with the burst size as they receive it. -/
structure BurstContract (engine : Engine) (w : Worker args M) (t : Turn M) : Prop
    extends DpdkContract engine w t where
  rx_le_maxBurst : t.rx.length ≤ args.maxBurst
  dqd_le_maxBurst : t.rgxDqd.length ≤ args.maxBurst

/-- The states at the ends of iterations, over every run after a successful `worker_init`. -/
inductive BurstReachable (ticksPerUs : UInt64) (engine : Engine) : Worker args M → Prop
  | init {w : Worker args M} (mem : M → PktData) (hw : workerInit args engine mem = some w) :
      BurstReachable ticksPerUs engine w
  | step {w w' : Worker args M} {t : Turn M} (hw : BurstReachable ticksPerUs engine w)
      (ht : BurstContract engine w t) (hstep : w.iteration ticksPerUs engine t = some w') :
      BurstReachable ticksPerUs engine w'

/-- The sum of one counter over the buckets. -/
def StatsArray.total {n : ℕ} (a : StatsArray n) (f : StatField) : UInt64 :=
  ∑ b : Fin n, (a.buckets.get b).get f

/-- How many packets the device accepted. -/
def accepted (log : List (Transfer M Holder)) : ℕ := log.countP (·.target = .device)

/-- How many packets were dequeued. -/
def dequeued (log : List (Transfer M Holder)) : ℕ := log.countP (·.source = .device)

/-- The histogram accounts for every packet. -/
structure Worker.Counted (w : Worker args M) : Prop where
  enq : w.stats.total .enqBurstPktsCnt = UInt64.ofNat (accepted w.log)
  deq : w.stats.total .deqBurstPktCnt = UInt64.ofNat (dequeued w.log)
  inFlight : w.stats.total .enqBurstPktsCnt - w.stats.total .deqBurstPktCnt
    = UInt64.ofNat w.inFlight.length

/-- The number of buckets is defined, and the histogram accounts for every packet at the end of
every iteration of every run. -/
def HistogramLossless (args : AppArgs) : Prop :=
  (argsParseBucketCnt args).isSome ∧
    ∀ (ticksPerUs : UInt64) (engine : Engine) (w : Worker args ℕ),
      BurstReachable ticksPerUs engine w → w.Counted

end RegexTest
end PamoRxpBench
