import PamoRxpBench.RegexTest.StatsDump
import PamoRxpBench.RegexTest.WorkerRun

/-!
# `regex-test`: from the launch of the workers to the report

The part of `main` from `rte_eal_mp_remote_launch` to `app_stats_dump`: as many workers as there are
queues leave their statistics in the shared variables, in any order of their actions. What a
worker's `worker_init` and `worker_rx_pkts` return may depend on the worker and on its queue.
-/

namespace PamoRxpBench
namespace RegexTest

/-- The shared variables with their statistics. -/
structure Launch (W : ℕ) (args : AppArgs) where
  sv : SharedVars W
  stats : List (Option (AppStats args.rgxStatsHistogramBucketCnt))

variable {W : ℕ} {args : AppArgs}

/-- `shared_vars sv = {.total_queues = nb_worker_cores, .stats = {0}}`. -/
def Launch.init (W : ℕ) (args : AppArgs) : Launch W args where
  sv := SharedVars.init W (UInt16.ofNat W)
  stats := List.replicate maxWorkerThreads none

/-- What a worker's calls return with a queue: `none` if `worker_init` fails, else the result of
`worker_rx_pkts`. -/
abbrev Calls (W : ℕ) (args : AppArgs) : Type :=
  Fin W → UInt16 → Option (Option (AppStats args.rgxStatsHistogramBucketCnt))

/-- One action of worker `i`. -/
def Launch.step (calls : Calls W args) (l : Launch W args) (i : Fin W) : Option (Launch W args) :=
  match l.sv.phase i with
  | .admitted qid => (l.sv.step (i, (calls i qid).isSome)).map fun sv => { l with sv := sv }
  | .polling qid =>
    -- `sv->stats[lv.qid] = worker_rx_pkts(&lv)`
    (l.sv.step (i, true)).map fun sv => ⟨sv, l.stats.set qid.toNat (calls i qid).join⟩
  | _ => (l.sv.step (i, true)).map fun sv => { l with sv := sv }

/-- The worker has returned. -/
def WorkerPhase.returned : WorkerPhase → Bool
  | .finished _ => true
  | .quit => true
  | _ => false

/-- `app_stats_dump(sv.stats, nb_worker_cores, …)`. -/
def Launch.report (l : Launch W args) : Option Printed := statsReport args (l.stats.take W)

end RegexTest
end PamoRxpBench
