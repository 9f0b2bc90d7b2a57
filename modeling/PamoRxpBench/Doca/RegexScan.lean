import PamoRxpBench.Library.Chunks

/-!
# `doca`: `regex_scan`

The main loop of `regex_scan` of `regex_scan_sample.c`, on a data buffer of any length. What DOCA
returns to one turn of the loop is a `Turn`. The buffer inventory has one element, so the program
can have one job at a time.

The ghosts `submitted`, `completed`, `outOfBounds` and `overFreed` record what the device was given,
what it returned, the writes behind the end of the data buffer and the releases of a buffer that was
free.
-/

namespace PamoRxpBench
namespace Doca

/-- `NB_CHUNKS`. -/
def nbChunks : ℕ := 6

/-- `struct doca_regex_match`. -/
structure RegexMatch where
  matchStart : ℕ
  length : ℕ
deriving DecidableEq, Repr

/-- A job: the part of the data buffer that is searched and the user data, which is returned with
its result. -/
structure Job where
  readOffset : ℤ
  jobSize : ℕ
  userData : ℕ
deriving DecidableEq, Repr

/-- An event: the user data of the job that is done, and its matches. -/
structure Event where
  userData : ℕ
  results : List RegexMatch
deriving DecidableEq, Repr

/-- What `doca_workq_submit` returns. -/
inductive Submit
  | success
  | noMemory
  | failed
deriving DecidableEq, Repr

/-- What DOCA returns to one turn of the loop: whether a buffer can be had, the answer to a
submission, the events that are retrieved one after the other, and whether what ends them is
`DOCA_ERROR_AGAIN`. -/
structure Turn where
  bufByAddr : Bool
  submit : Submit
  events : List Event
  again : Bool
deriving DecidableEq, Repr

/-- The variables of `regex_scan`. -/
structure ScanState where
  dataBuffer : List UInt8
  chunkLen : ℕ
  remainingBytes : ℕ
  /-- `job_request.base.user_data.u64`. -/
  userData : ℕ
  /-- The free elements of the inventory. -/
  nbFree : ℕ
  inFlight : List Job
  nbEnqueued : ℕ
  nbDequeued : ℕ
  submitted : List (Job × List UInt8)
  completed : List Event
  outOfBounds : ℕ
  overFreed : ℕ

/-- `rgx_cfg.chunk_len`. -/
def initialChunkLen (dataBufferLen : ℕ) : ℕ :=
  if dataBufferLen < nbChunks then dataBufferLen else 1 + dataBufferLen / nbChunks

/-- The variables before the loop; `remaining_bytes` has 32 bits. -/
def ScanState.init (dataBuffer : List UInt8) : ScanState where
  dataBuffer := dataBuffer
  chunkLen := initialChunkLen dataBuffer.length
  remainingBytes := dataBuffer.length % 2 ^ 32
  userData := 0
  nbFree := 1
  inFlight := []
  nbEnqueued := 0
  nbDequeued := 0
  submitted := []
  completed := []
  outOfBounds := 0
  overFreed := 0

/-- A number as an `int`. -/
def int32 (n : ℕ) : ℤ := if n % 2 ^ 32 < 2 ^ 31 then n % 2 ^ 32 else n % 2 ^ 32 - 2 ^ 32

/-! ## Submitting -/

/-- The job for the next chunk. -/
def ScanState.nextJob (s : ScanState) : Job where
  readOffset := int32 (s.dataBuffer.length - s.remainingBytes)
  jobSize := if s.chunkLen < s.remainingBytes then s.chunkLen else s.remainingBytes
  userData := s.userData

/-- The bytes that the device is given for a job. -/
def ScanState.jobBytes (s : ScanState) (job : Job) : List UInt8 :=
  (s.dataBuffer.drop job.readOffset.toNat).take job.jobSize

/-- `regex_scan_enq_job`; `none` is its negative value. -/
def ScanState.enqJob (s : ScanState) (t : Turn) : Option ScanState :=
  if s.remainingBytes ≠ 0 ∧ s.nbFree ≠ 0 then
    if !t.bufByAddr then some s
    else
      match t.submit with
      -- the queue is full, and the buffer is given back
      | .noMemory => some s
      | .failed => none
      | .success => some { s with
          remainingBytes := s.remainingBytes - s.nextJob.jobSize
          userData := s.userData + 1
          nbFree := s.nbFree - 1
          inFlight := s.inFlight ++ [s.nextJob]
          nbEnqueued := s.nbEnqueued + 1
          submitted := s.submitted ++ [(s.nextJob, s.jobBytes s.nextJob)] }
  else some s

/-! ## Retrieving -/

/-- The place in the data buffer behind a match. -/
def matchEnd (chunkLen userData : ℕ) (m : RegexMatch) : ℕ :=
  m.matchStart + chunkLen * userData + m.length

/-- The body of the loop of `regex_scan_report_results`: the match is terminated in the data
buffer. -/
def ScanState.reportMatch (userData : ℕ) (s : ScanState) (m : RegexMatch) : ScanState :=
  let last := matchEnd s.chunkLen userData m
  { s with
    dataBuffer := s.dataBuffer.set last 0
    outOfBounds := s.outOfBounds + if last < s.dataBuffer.length then 0 else 1 }

/-- `regex_scan_report_results`. -/
def ScanState.reportResults (s : ScanState) (event : Event) : ScanState :=
  event.results.foldl (ScanState.reportMatch event.userData) s

/-- `doca_buf_refcount_rm`: the inventory has one element. -/
def ScanState.refcountRm (s : ScanState) : ScanState :=
  if s.nbFree = 0 then { s with nbFree := 1 } else { s with overFreed := s.overFreed + 1 }

/-- The body of the loop of `regex_scan_deq_job` for an event. -/
def ScanState.deqEvent (s : ScanState) (event : Event) : ScanState :=
  let s := s.refcountRm.reportResults event
  { s with
    nbDequeued := s.nbDequeued + 1
    inFlight := s.inFlight.eraseP fun job => job.userData = event.userData
    completed := s.completed ++ [event] }

/-- `regex_scan_deq_job`; `none` is its negative value. -/
def ScanState.deqJob (s : ScanState) (t : Turn) : Option ScanState :=
  if t.again then some (t.events.foldl ScanState.deqEvent s) else none

/-! ## The main loop -/

/-- How the loop can end, or not have ended yet. -/
inductive Outcome
  | success (s : ScanState)
  | ioFailed
  | running (s : ScanState)

/-- The condition of the main loop. -/
def ScanState.goesOn (s : ScanState) : Bool :=
  s.remainingBytes > 0 || s.nbDequeued ≠ s.nbEnqueued

/-- One turn of the main loop. -/
def ScanState.turn (s : ScanState) (t : Turn) : Option ScanState :=
  (s.enqJob t).bind fun s => s.deqJob t

/-- The main loop, for the turns that DOCA has answered. -/
def scanLoop : ScanState → List Turn → Outcome
  | s, [] => .running s
  | s, t :: ts =>
    match s.turn t with
    | none => .ioFailed
    | some s => if s.goesOn then scanLoop s ts else .success s

/-- `regex_scan` behind its set-up; `none` is `DOCA_ERROR_INVALID_VALUE`. -/
def regexScan (dataBuffer : List UInt8) (ts : List Turn) : Option Outcome :=
  if dataBuffer.length = 0 then none else some (scanLoop (.init dataBuffer) ts)

/-! ## What DOCA promises -/

/-- An event is that of a job that is in flight. -/
def EventContract (s : ScanState) (event : Event) : Prop :=
  ∃ job ∈ s.inFlight, job.userData = event.userData

/-- And its matches are in the chunk. -/
def MatchContract (s : ScanState) (event : Event) : Prop :=
  ∃ job ∈ s.inFlight, job.userData = event.userData ∧
    ∀ m ∈ event.results, m.matchStart + m.length ≤ job.jobSize

section Contracts

variable (promise : ScanState → Event → Prop)

/-- The same for events that are retrieved one after the other. -/
def EventsContract : ScanState → List Event → Prop
  | _, [] => True
  | s, event :: events => promise s event ∧ EventsContract (s.deqEvent event) events

/-- What is promised of one turn. -/
def TurnContract (s : ScanState) (t : Turn) : Prop :=
  ∀ u, s.enqJob t = some u → EventsContract promise u t.events

/-- What is promised of the turns that the loop takes. -/
def ScanContract : ScanState → List Turn → Prop
  | _, [] => True
  | s, t :: ts =>
    TurnContract promise s t ∧ ∀ u, s.turn t = some u → u.goesOn = true → ScanContract u ts

end Contracts

end Doca
end PamoRxpBench
