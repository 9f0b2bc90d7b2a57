import Mathlib.Data.UInt
import Mathlib.Algebra.BigOperators.Group.List.Basic

/-!
# `regex-test`: arguments and burst statistics

The part of `regex-test.h` / `regex-test.c` that the worker and the final report share:

* `AppArgs`, the parsed command line as far as they read it;
* `RegexStatsBurst`, one bucket of the burst histogram, and `StatsArray`, the array of
  buckets of a worker;
* the two places of `worker_rx_pkts` that write to that array, after an enqueue and after
  a dequeue, as the lists of writes they perform (`enqueueWrites`, `dequeueWrites`).

The C code indexes the array with a computed index. A write past its end is undefined
there, so `StatsArray.write` does not touch the buckets then and counts the write as
`wild`: "no wild write" is what "every index is in range" means for a whole run.
-/

namespace PamoRxpBench
namespace RegexTest

/-- `struct app_args`: the fields the worker and the report read. -/
structure AppArgs where
  explibOut : Bool
  hsEnabled : Bool
  rgxEnabled : Bool
  rgxNumOfMatchMode : ℕ
  rgxStatsHistogramBucketSize : ℕ
  rgxSubsetCnt : ℕ
  portBurstSize : ℕ
  forwardingMode : ℕ
deriving DecidableEq, Repr

/-- The derived property `rgx_stats_histogram_bucket_cnt`, set at the end of `args_parse`. -/
def AppArgs.rgxStatsHistogramBucketCnt (args : AppArgs) : ℕ :=
  args.portBurstSize / args.rgxStatsHistogramBucketSize

/-- `g_app_args` before parsing; `matchMode` is the value of DPDK's
`RTE_REGEX_OPS_REQ_STOP_ON_MATCH_F`. -/
def gAppArgs (matchMode : ℕ) : AppArgs where
  explibOut := true
  hsEnabled := false
  rgxEnabled := true
  rgxNumOfMatchMode := matchMode
  rgxStatsHistogramBucketSize := 4
  rgxSubsetCnt := 1
  portBurstSize := 64
  forwardingMode := 0

/-! ## One bucket of the histogram -/

/-- `struct regex_stats_burst`; its field `matches` is `matchesTotal` here. -/
structure RegexStatsBurst where
  burstSize : UInt32
  enqBurstCnt : UInt64
  enqBurstPktsCnt : UInt64
  deqBurstCnt : UInt64
  deqBurstPktCnt : UInt64
  deqRTTTotalUs : UInt64
  deqRTTTotalCycles : UInt64
  matchesTotal : UInt64
deriving DecidableEq, Repr

/-- A zeroed bucket, as `rte_calloc` leaves it. -/
def RegexStatsBurst.zero : RegexStatsBurst := ⟨0, 0, 0, 0, 0, 0, 0, 0⟩

/-- The seven counters of a bucket. -/
inductive StatField
  | enqBurstCnt
  | enqBurstPktsCnt
  | deqBurstCnt
  | deqBurstPktCnt
  | deqRTTTotalUs
  | deqRTTTotalCycles
  | matchesTotal
deriving DecidableEq, Repr

/-- Read one counter. -/
def RegexStatsBurst.get (b : RegexStatsBurst) : StatField → UInt64
  | .enqBurstCnt => b.enqBurstCnt
  | .enqBurstPktsCnt => b.enqBurstPktsCnt
  | .deqBurstCnt => b.deqBurstCnt
  | .deqBurstPktCnt => b.deqBurstPktCnt
  | .deqRTTTotalUs => b.deqRTTTotalUs
  | .deqRTTTotalCycles => b.deqRTTTotalCycles
  | .matchesTotal => b.matchesTotal

/-- `b.field += v`. -/
def RegexStatsBurst.add (b : RegexStatsBurst) (f : StatField) (v : UInt64) : RegexStatsBurst :=
  match f with
  | .enqBurstCnt => { b with enqBurstCnt := b.enqBurstCnt + v }
  | .enqBurstPktsCnt => { b with enqBurstPktsCnt := b.enqBurstPktsCnt + v }
  | .deqBurstCnt => { b with deqBurstCnt := b.deqBurstCnt + v }
  | .deqBurstPktCnt => { b with deqBurstPktCnt := b.deqBurstPktCnt + v }
  | .deqRTTTotalUs => { b with deqRTTTotalUs := b.deqRTTTotalUs + v }
  | .deqRTTTotalCycles => { b with deqRTTTotalCycles := b.deqRTTTotalCycles + v }
  | .matchesTotal => { b with matchesTotal := b.matchesTotal + v }

@[simp] theorem RegexStatsBurst.get_zero (f : StatField) : RegexStatsBurst.zero.get f = 0 := by
  cases f <;> rfl

@[simp] theorem RegexStatsBurst.get_add (b : RegexStatsBurst) (f g : StatField) (v : UInt64) :
    (b.add f v).get g = b.get g + if f = g then v else 0 := by
  cases f <;> cases g <;> simp [RegexStatsBurst.add, RegexStatsBurst.get]

/-! ## The other statistics of a worker -/

/-- `struct hs_stats`. -/
structure HsStats where
  totalScans : UInt64
  totalScansUs : UInt64
  totalScansCycles : UInt64
  totalMatches : UInt64
deriving DecidableEq, Repr

/-- `struct lcore_stats`. -/
structure LcoreStats where
  wastedCycles : UInt64
  usefulCycles : UInt64
deriving DecidableEq, Repr

/-! ## The array of buckets -/

/-- One `stats[bucket].field += amount`. -/
structure StatWrite where
  bucket : ℕ
  field : StatField
  amount : UInt64
deriving DecidableEq, Repr

/-- `lv->rgxc->stats`: an array of `n` buckets, and how many writes missed it. -/
structure StatsArray (n : ℕ) where
  buckets : Vector RegexStatsBurst n
  wild : ℕ

/-- The zeroed array of `worker_init`. -/
def StatsArray.init (n : ℕ) : StatsArray n := ⟨Vector.replicate n .zero, 0⟩

/-- Perform one write. Out of range it is undefined in C: it only counts as wild here. -/
def StatsArray.write {n : ℕ} (a : StatsArray n) (w : StatWrite) : StatsArray n :=
  if h : w.bucket < n then
    { a with buckets := a.buckets.set w.bucket (a.buckets[w.bucket].add w.field w.amount) }
  else
    { a with wild := a.wild + 1 }

/-- Perform a list of writes. -/
def StatsArray.writes {n : ℕ} (a : StatsArray n) (ws : List StatWrite) : StatsArray n :=
  ws.foldl StatsArray.write a

/-- What a list of writes adds to counter `f` of bucket `b`. -/
def credited (b : ℕ) (f : StatField) (ws : List StatWrite) : UInt64 :=
  (ws.map fun w => if w.bucket = b ∧ w.field = f then w.amount else 0).sum

@[simp] theorem credited_nil (b : ℕ) (f : StatField) : credited b f [] = 0 := rfl

theorem credited_cons (b : ℕ) (f : StatField) (w : StatWrite) (ws : List StatWrite) :
    credited b f (w :: ws)
      = (if w.bucket = b ∧ w.field = f then w.amount else 0) + credited b f ws := rfl

theorem credited_append (b : ℕ) (f : StatField) (xs ys : List StatWrite) :
    credited b f (xs ++ ys) = credited b f xs + credited b f ys := by
  simp only [credited, List.map_append, List.sum_append]

theorem StatsArray.init_get {n : ℕ} {b : ℕ} (hb : b < n) (f : StatField) :
    ((StatsArray.init n).buckets[b]).get f = 0 := by
  simp [StatsArray.init]

/-- One write changes one counter of one bucket. -/
theorem StatsArray.write_get {n : ℕ} (a : StatsArray n) (w : StatWrite) {b : ℕ} (hb : b < n)
    (f : StatField) :
    ((a.write w).buckets[b]).get f
      = (a.buckets[b]).get f + if w.bucket = b ∧ w.field = f then w.amount else 0 := by
  unfold StatsArray.write
  split
  · rename_i h
    by_cases hwb : w.bucket = b
    · subst hwb
      simp
    · simp [hwb]
  · rename_i h
    have hwb : w.bucket ≠ b := fun e => h (e ▸ hb)
    simp [hwb]

/-- A list of writes adds to every counter what it credits to it. -/
theorem StatsArray.writes_get {n : ℕ} (a : StatsArray n) (ws : List StatWrite) {b : ℕ}
    (hb : b < n) (f : StatField) :
    ((a.writes ws).buckets[b]).get f = (a.buckets[b]).get f + credited b f ws := by
  induction ws generalizing a with
  | nil => simp [StatsArray.writes]
  | cons w ws ih =>
    rw [show a.writes (w :: ws) = (a.write w).writes ws from rfl, ih, a.write_get w hb f,
      credited_cons, add_assoc]

/-- The wild writes of a list are those whose index is past the end. -/
theorem StatsArray.writes_wild {n : ℕ} (a : StatsArray n) (ws : List StatWrite) :
    (a.writes ws).wild = a.wild + ws.countP fun w => n ≤ w.bucket := by
  induction ws generalizing a with
  | nil => simp [StatsArray.writes]
  | cons w ws ih =>
    rw [show a.writes (w :: ws) = (a.write w).writes ws from rfl, ih, List.countP_cons]
    unfold StatsArray.write
    split
    · rename_i h
      simp [Nat.not_le.mpr h]
    · rename_i h
      simp [Nat.not_lt.mp h]
      omega

/-! ## The histogram writes of `worker_rx_pkts` -/

/-- `for (stats_i = i; …; stats_i++) if (n <= stats_i * bucket_size) break;` with `k`
iterations left: the value `stats_i` has after the loop. The product does not wrap: it is
at most `port_burst_size`. -/
def bucketLoop (size n : ℕ) : ℕ → ℕ → ℕ
  | 0, i => i
  | k + 1, i => if n ≤ i * size then i else bucketLoop size n k (i + 1)

/-- `stats_i` after the search loop for a burst of `n` packets. It exceeds the number of
buckets when the loop found none. -/
def statsI (args : AppArgs) (n : ℕ) : ℕ :=
  bucketLoop args.rgxStatsHistogramBucketSize n args.rgxStatsHistogramBucketCnt 1

/-- The writes after `rte_regexdev_enqueue_burst` accepted `rgx_enqd` ops. -/
def enqueueWrites (args : AppArgs) (rgxEnqd : ℕ) : List StatWrite :=
  let i := statsI args rgxEnqd
  if i ≤ args.rgxStatsHistogramBucketCnt then
    [⟨i - 1, .enqBurstCnt, 1⟩, ⟨i - 1, .enqBurstPktsCnt, UInt64.ofNat rgxEnqd⟩]
  else []  -- no bucket is large enough, and the burst is not counted

/-- What the dequeue loop reads off one completed op: `nb_matches` and the cycles since the
packet was stamped. -/
structure Dequeued where
  nbMatches : UInt64
  rttCycles : UInt64
deriving DecidableEq, Repr

/-- The writes for one dequeued op: inside the loop the index is `stats_i`, not
`stats_i - 1`. -/
def packetWrites (ticksPerUs : UInt64) (i : ℕ) (p : Dequeued) : List StatWrite :=
  [⟨i, .matchesTotal, p.nbMatches⟩,
   ⟨i, .deqRTTTotalCycles, p.rttCycles⟩,
   ⟨i, .deqRTTTotalUs, p.rttCycles / ticksPerUs⟩]

/-- The writes after `rte_regexdev_dequeue_burst` returned the ops `pkts`. -/
def dequeueWrites (args : AppArgs) (ticksPerUs : UInt64) (pkts : List Dequeued) :
    List StatWrite :=
  let i := statsI args pkts.length
  (if i ≤ args.rgxStatsHistogramBucketCnt then
    [⟨i - 1, .deqBurstCnt, 1⟩, ⟨i - 1, .deqBurstPktCnt, UInt64.ofNat pkts.length⟩]
  else [])
    -- the ops are credited whether or not a bucket was found
    ++ pkts.flatMap (packetWrites ticksPerUs i)

/-- The statistics array after a run that dequeued `bursts`, one after the other. -/
def dequeueRun (args : AppArgs) (ticksPerUs : UInt64) (bursts : List (List Dequeued)) :
    StatsArray args.rgxStatsHistogramBucketCnt :=
  (StatsArray.init _).writes (bursts.flatMap (dequeueWrites args ticksPerUs))

end RegexTest
end PamoRxpBench
