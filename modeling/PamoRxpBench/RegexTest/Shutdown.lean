import PamoRxpBench.Library.Runs
import PamoRxpBench.RegexTest.StatsDump
import PamoRxpBench.RegexTest.Worker

/-!
# `regex-test`: a worker from its start to its end

The whole of `worker_rx_pkts`: its two arrays, the packet loop until `force_quit`, the loop behind
the label `end` that empties the regex queue, and the statistics that are returned. `none` is
`rte_panic`, or a call that has not returned.
-/

namespace PamoRxpBench
namespace RegexTest

open Custody Runs

/-- Everything the outside world returns to one call: whether the arrays could be allocated, the
iterations before `force_quit`, and the bursts that are dequeued behind the loop. -/
structure RxRun (M : Type) where
  pktsBurst : Bool
  rgxDqdCollector : Bool
  turns : List (Turn M)
  drain : List (List (Completion M))
  appStats : Bool

/-- The iterations that are executed: a failed allocation jumps over the loop. -/
def RxRun.executed {M : Type} (r : RxRun M) : List (Turn M) :=
  if r.pktsBurst && r.rgxDqdCollector then r.turns else []

variable {M : Type} [DecidableEq M] {args : AppArgs}

/-- The body of the loop behind `end`: the packet of every dequeued op is freed. -/
def Worker.drainBurst (w : Worker args M) (dqd : List (Completion M)) : Worker args M :=
  let ops := fillOps w.ops dqd
  let returned := dqd.map Completion.userPtr
  { w with
    ops := ops
    inFlight := w.inFlight.diff returned
    log := w.log ++ moves .device .worker returned
      ++ moves .worker .pool ((ops.take dqd.length).filterMap RegexOp.userPtr) }

/-- The loop behind `end`, until a burst is empty. -/
def Worker.drain : Worker args M → List (List (Completion M)) → Option (Worker args M)
  | _, [] => none
  | w, dqd :: rest => if dqd.length > 0 then (w.drainBurst dqd).drain rest else some w

/-- The statistics that are returned. -/
def Worker.appStats (engine : Engine) (w : Worker args M) :
    AppStats args.rgxStatsHistogramBucketCnt where
  regexStats := if engine = .regex then some w.stats.buckets else none
  hsStats := if engine = .hyperscan then some w.hsStats else none
  lcoreStats := some w.lcoreStats

/-- `worker_rx_pkts`. -/
def workerRxPkts (ticksPerUs : UInt64) (engine : Engine) (w : Worker args M) (r : RxRun M) :
    Option (Worker args M × AppStats args.rgxStatsHistogramBucketCnt) := do
  let w ← run (Worker.iteration ticksPerUs engine) w r.executed
  let w ← if engine = .regex then w.drain r.drain else some w
  if r.appStats then some (w, w.appStats engine) else none

/-! ## The environment -/

/-- What the dequeues behind the loop promise: they return distinct accepted ops that were not
returned yet, as many as are ready, and none is an answer too. -/
def DrainContract : Worker args M → List (List (Completion M)) → Prop
  | _, [] => True
  | w, dqd :: rest =>
    dqd.length ≤ args.portBurstSize ∧ (dqd.map Completion.userPtr).Subperm w.inFlight ∧
      (0 < dqd.length → DrainContract (w.drainBurst dqd) rest)

/-- What the calls of the whole run promise. -/
structure RxContract (ticksPerUs : UInt64) (engine : Engine) (w : Worker args M) (r : RxRun M) :
    Prop where
  turns : Meets (Worker.iteration ticksPerUs engine) (DpdkContract engine) w r.executed
  drain : ∀ w', run (Worker.iteration ticksPerUs engine) w r.executed = some w' →
    DrainContract w' r.drain

/-- The ops that the device accepted. -/
def RxRun.accepted (r : RxRun M) : ℕ := (r.executed.map Turn.rgxEnqd).sum

/-- The completions that the device returned, before the first empty burst behind the loop. -/
def RxRun.completed (r : RxRun M) : ℕ :=
  (r.executed.map fun t => t.rgxDqd.length).sum +
    ((r.drain.takeWhile fun dqd => 0 < dqd.length).map List.length).sum

end RegexTest
end PamoRxpBench
