import PamoRxpBench.Library.Runs
import Mathlib.Data.Fintype.Basic

/-!
# `regex-test`: `worker_run`

The workers that `main` launches take their queue from one shared counter. A state holds the
shared variables and where each of the `W` workers is; a step is one atomic action of one
worker, so a run is one order in which the actions of the workers take effect.

The queue id indexes the queues of the port and of the regex device, and the arrays `rgxc_arr`,
`hs_scratch` and `stats` of the shared variables: every use of it is logged.
-/

namespace PamoRxpBench
namespace RegexTest

/-- `MAX_WORKER_THREADS`: the length of `hs_scratch` and of `stats`. -/
def maxWorkerThreads : ℕ := 32

/-- Where a worker is in `worker_run`. -/
inductive WorkerPhase
  /-- Before the increment of `wq_id`. -/
  | launched
  /-- Before the guard. -/
  | numbered (qid : UInt16)
  /-- Behind the guard, with its queue, before `worker_init`. -/
  | admitted (qid : UInt16)
  /-- In `worker_rx_pkts`. -/
  | polling (qid : UInt16)
  /-- Returned from behind the guard. -/
  | finished (qid : UInt16)
  /-- Returned by the guard. -/
  | quit
deriving DecidableEq, Repr

/-- The shared variables that `worker_run` reads and writes, and where the workers are.
`accesses` is a ghost: the uses of the shared variables other than `wq_id` and `total_queues`,
each by a worker with an index. -/
structure SharedVars (W : ℕ) where
  totalQueues : UInt16
  wqId : Int16
  phase : Fin W → WorkerPhase
  accesses : List (Fin W × UInt16)

/-- The shared variables when the workers are launched. -/
def SharedVars.init (W : ℕ) (totalQueues : UInt16) : SharedVars W where
  totalQueues := totalQueues
  wqId := 0
  phase := fun _ => .launched
  accesses := []

/-- One action of worker `i`; `initOk` is whether `worker_init` succeeds. -/
def SharedVars.step {W : ℕ} (sv : SharedVars W) : Fin W × Bool → Option (SharedVars W)
  | (i, initOk) =>
    match sv.phase i with
    | .launched =>
      -- `rte_atomic16_add_return(&sv->wq_id, 1) - 1`
      some { sv with
        wqId := sv.wqId + 1
        phase := Function.update sv.phase i (.numbered ((sv.wqId + 1).toUInt16 - 1)) }
    | .numbered qid =>
      if qid > sv.totalQueues then
        some { sv with phase := Function.update sv.phase i .quit }
      else
        some { sv with phase := Function.update sv.phase i (.admitted qid) }
    | .admitted qid =>
      -- `sv->rgxc_arr[qid]` and `sv->hs_scratch[qid]`
      some { sv with
        phase := Function.update sv.phase i (if initOk then .polling qid else .finished qid)
        accesses := sv.accesses ++ [(i, qid)] }
    | .polling qid =>
      -- `sv->stats[lv.qid]`
      some { sv with
        phase := Function.update sv.phase i (.finished qid)
        accesses := sv.accesses ++ [(i, qid)] }
    | .finished _ => none
    | .quit => none

/-- The queue of a worker that passed the guard. -/
def WorkerPhase.queue : WorkerPhase → Option UInt16
  | .admitted qid => some qid
  | .polling qid => some qid
  | .finished qid => some qid
  | _ => none

/-- The workers that passed the guard have queues of their own, each of them configured and
inside the arrays, and only they touched the shared variables. -/
structure SharedVars.Exclusive {W : ℕ} (sv : SharedVars W) : Prop where
  distinct : ∀ i j qid, (sv.phase i).queue = some qid → (sv.phase j).queue = some qid → i = j
  lt_totalQueues : ∀ i qid, (sv.phase i).queue = some qid → qid < sv.totalQueues
  lt_maxWorkerThreads : ∀ i qid, (sv.phase i).queue = some qid → qid.toNat < maxWorkerThreads
  untouched : ∀ a ∈ sv.accesses, (sv.phase a.1).queue = some a.2

end RegexTest
end PamoRxpBench
