import PamoRxpBench.Doca.RegexScan
import PamoRxpBench.Library.Lifecycle

/-!
# `doca`: `dpi_scan`

`doca_dpi_worker_init`, `doca_dpi_worker_destroy` and `dpi_scan` of `dpi_scan_sample.c`, as the
calls that they make of what DOCA answers. A call that fails makes nothing, and only uses what it is
given. A queue is named by its place in `workq`, an access outside of which ends the program.
-/

namespace PamoRxpBench
namespace Doca

open Lifecycle

/-- `MAX_WORKQ_NUM`. -/
def maxWorkqNum : ℕ := 16

/-- What the program makes. -/
inductive DpiResource where
  | dpiCtx
  | started
  | workq (i : ℕ)
  | attached (i : ℕ)
  | flowCtx
deriving DecidableEq, Repr

/-- What a resource is made of: the instance has to be stopped before it is destroyed, and a queue
removed from it before it is destroyed or the instance is stopped. -/
def DpiResource.needs : DpiResource → List DpiResource
  | .dpiCtx => []
  | .started => [.dpiCtx]
  | .workq _ => []
  | .attached i => [.started, .workq i]
  | .flowCtx => [.attached 0]

/-- What DOCA answers to `doca_dpi_worker_init`. -/
structure DpiAnswers where
  dpiCreate : Bool
  devAdd : Bool
  setSignatures : Bool
  setPerWorkqPacketPoolSize : Bool
  setMaxSigMatchLen : Bool
  ctxStart : Bool
  workqCreate : ℕ → Bool
  workqAdd : ℕ → Bool

/-- A function has succeeded, has returned an error, or has left the array. -/
inductive DpiExit where
  | success
  | failed
  | outOfBounds
deriving DecidableEq, Repr

/-! ## `doca_dpi_worker_init` -/

/-- The answers to the calls that configure the instance and start it. -/
def DpiAnswers.configuration (d : DpiAnswers) : List Bool :=
  [d.devAdd, d.setSignatures, d.setPerWorkqPacketPoolSize, d.setMaxSigMatchLen, d.ctxStart]

/-- The instance is configured and started. -/
def DpiAnswers.configured (d : DpiAnswers) : Bool := d.configuration.all id

/-- The calls that configure the instance, up to the first one that fails. -/
def configureCalls : List Bool → List (Act DpiResource)
  | [] => []
  | ok :: answers => .use .dpiCtx :: if ok then configureCalls answers else []

/-- The calls up to the start of the instance. -/
def DpiAnswers.startCalls (d : DpiAnswers) : List (Act DpiResource) :=
  .acquire .dpiCtx :: configureCalls d.configuration

/-- Where the loop over the queues is. -/
inductive WorkqExit where
  | going
  | workqCreateFail
  | workqAddFail
  | outOfBounds
deriving DecidableEq, Repr

/-- The variables of the loop, and its calls. -/
structure WorkqLoop where
  exit : WorkqExit
  nbWorkqAttached : ℕ
  calls : List (Act DpiResource)
deriving DecidableEq

/-- The body of the loop for queue `i`. -/
def WorkqLoop.turn (d : DpiAnswers) (i : ℕ) (l : WorkqLoop) : WorkqLoop :=
  if l.exit ≠ .going then l
  else if !d.workqCreate i then { l with exit := .workqCreateFail }
  -- the queue is created, and written behind the array
  else if maxWorkqNum ≤ i then { l with exit := .outOfBounds }
  else if !d.workqAdd i then
    { l with
      exit := .workqAddFail
      calls := l.calls ++ [.acquire (.workq i), .use .started, .use (.workq i)] }
  else
    { l with
      nbWorkqAttached := l.nbWorkqAttached + 1
      calls := l.calls ++ [.acquire (.workq i), .acquire (.attached i)] }

/-- The loop over the queues. -/
def workqLoop (d : DpiAnswers) : ℕ → WorkqLoop
  | 0 => ⟨.going, 0, []⟩
  | i + 1 => (workqLoop d i).turn d i

/-- The label `workq_create_fail`. -/
def workqCreateFail (nbWorkqAttached : ℕ) : List (Act DpiResource) :=
  ((List.range (nbWorkqAttached - 1)).flatMap fun i =>
    [.release (.attached i), .release (.workq i)]) ++ [.release .started, .release .dpiCtx]

/-- The label `workq_add_fail`. -/
def workqAddFail (nbWorkqAttached : ℕ) : DpiExit × List (Act DpiResource) :=
  if nbWorkqAttached = 0 then (.outOfBounds, [])
  else (.failed, .release (.workq (nbWorkqAttached - 1)) :: workqCreateFail nbWorkqAttached)

/-- How `doca_dpi_worker_init` ends after the loop, and its calls. -/
def WorkqLoop.finish (l : WorkqLoop) : DpiExit × List (Act DpiResource) :=
  match l.exit with
  | .going => (.success, l.calls)
  | .workqCreateFail => (.failed, l.calls ++ workqCreateFail l.nbWorkqAttached)
  | .workqAddFail =>
    ((workqAddFail l.nbWorkqAttached).1, l.calls ++ (workqAddFail l.nbWorkqAttached).2)
  | .outOfBounds => (.outOfBounds, l.calls)

/-- `doca_dpi_worker_init`, with arguments that are not `NULL`. -/
def docaDpiWorkerInit (d : DpiAnswers) (nbWorkq : UInt8) : DpiExit × List (Act DpiResource) :=
  if !d.dpiCreate then (.failed, [])
  else if !d.configured then (.failed, d.startCalls ++ [.release .dpiCtx])
  else
    ((workqLoop d nbWorkq.toNat).finish.1,
      d.startCalls ++ .acquire .started :: (workqLoop d nbWorkq.toNat).finish.2)

/-- `doca_dpi_worker_destroy`, of a worker with `nbWorkqAttached` queues. -/
def docaDpiWorkerDestroy (nbWorkqAttached : ℕ) : List (Act DpiResource) :=
  ((List.range nbWorkqAttached).flatMap fun i =>
    [.release (.attached i), .release (.workq i)]) ++ [.release .started, .release .dpiCtx]

/-! ## `dpi_scan` -/

/-- What `doca_workq_progress_retrieve` returns; `matched` is a field of the result. -/
inductive Retrieve where
  | success (matched : Bool)
  | again
  | failed
deriving DecidableEq, Repr

/-- What DOCA answers to `dpi_scan`: the answers to the submissions and to the retrievals up to some
time. -/
structure ScanAnswers where
  init : DpiAnswers
  flowCreate : Bool
  submits : List Submit
  retrieves : List Retrieve
  getSignature : Bool

/-- `retry_job_submit`: `none` while it is still submitting, and its calls so far. -/
def submitJob : List Submit → Option Bool × List (Act DpiResource)
  | [] => (none, [])
  | answer :: submits =>
    let calls : List (Act DpiResource) := [.use (.attached 0), .use .flowCtx]
    match answer with
    | .success => (some true, calls)
    | .noMemory => ((submitJob submits).1, calls ++ (submitJob submits).2)
    | .failed => (some false, calls)

/-- The loop that waits for the job. -/
def retrieveJob (getSignature : Bool) : List Retrieve → Option Bool × List (Act DpiResource)
  | [] => (none, [])
  | .success matched :: _ =>
    (some (!matched || getSignature),
      .use (.attached 0) :: if matched then [.use .dpiCtx] else [])
  | .again :: retrieves =>
    ((retrieveJob getSignature retrieves).1,
      .use (.attached 0) :: (retrieveJob getSignature retrieves).2)
  | .failed :: _ => (some false, [.use (.attached 0)])

/-- The loop that waits for the job, and the reading of the statistics behind it. -/
def ScanAnswers.retrieved (a : ScanAnswers) : Option Bool × List (Act DpiResource) :=
  let retrieve := retrieveJob a.getSignature a.retrieves
  (retrieve.1, retrieve.2 ++ if retrieve.1 = some true then [.use .dpiCtx] else [])

/-- The job is submitted, and retrieved if it was. -/
def ScanAnswers.job (a : ScanAnswers) : Option Bool × List (Act DpiResource) :=
  match submitJob a.submits with
  | (some true, calls) => (a.retrieved.1, calls ++ a.retrieved.2)
  | (answer, calls) => (answer, calls)

/-- `dpi_scan`: `none` while it is still running, and its calls so far. -/
def dpiScan (a : ScanAnswers) : Option DpiExit × List (Act DpiResource) :=
  let init := docaDpiWorkerInit a.init 1
  if init.1 ≠ .success then (some init.1, init.2)
  else if !a.flowCreate then
    (some .failed, init.2 ++ .use (.attached 0) :: docaDpiWorkerDestroy 1)
  else
    match a.job.1 with
    | none => (none, init.2 ++ .acquire .flowCtx :: a.job.2)
    | some ok =>
      (some (if ok then .success else .failed),
        init.2 ++ .acquire .flowCtx :: a.job.2 ++ .release .flowCtx :: docaDpiWorkerDestroy 1)

end Doca
end PamoRxpBench
