import PamoRxpBench.RegexTest.Stats
import Mathlib.Data.List.Perm.Basic

/-!
# `regex-test`: the final report

`app_stats_dump` of `regex-test.c`: the statistics of all workers are added up, bucket by
bucket, and printed. Any entry of the array of workers, and any of the three blocks of an
entry, may be `NULL`. The number of buckets is a parameter of 16 bits, the loops that print go over
all of them.
-/

namespace PamoRxpBench
namespace RegexTest

/-- `struct app_stats` of one worker, with a histogram of `n` buckets. -/
structure AppStats (n : ℕ) where
  regexStats : Option (Vector RegexStatsBurst n)
  hsStats : Option HsStats
  lcoreStats : Option LcoreStats
deriving DecidableEq

/-- The aggregated statistics: `s` with its `m` buckets, `hs_stats` and `lc_stats`. -/
structure Aggregated (m : ℕ) where
  regexStats : Vector RegexStatsBurst m
  hsStats : HsStats
  lcoreStats : LcoreStats
deriving DecidableEq

/-- The body of the loop over buckets: `r`, a worker's bucket `j`, is added to `s[j]`. -/
def addBucket (bucketSize j : ℕ) (s r : RegexStatsBurst) : RegexStatsBurst where
  burstSize := UInt32.ofNat ((j + 1) * bucketSize)
  -- the packets of the worker, not its bursts
  enqBurstCnt := s.enqBurstCnt + r.enqBurstPktsCnt
  enqBurstPktsCnt := s.enqBurstPktsCnt + r.enqBurstPktsCnt
  deqBurstCnt := s.deqBurstCnt + r.deqBurstCnt
  deqBurstPktCnt := s.deqBurstPktCnt + r.deqBurstPktCnt
  deqRTTTotalUs := s.deqRTTTotalUs + r.deqRTTTotalUs
  deqRTTTotalCycles := s.deqRTTTotalCycles + r.deqRTTTotalCycles
  matchesTotal := s.matchesTotal + r.matchesTotal

/-- The loop over the buckets of one worker: there are `m` of them in `s`; the worker has `n`. -/
def addRegexStats {m n : ℕ} (hmn : m ≤ n) (bucketSize : ℕ) (s : Vector RegexStatsBurst m)
    (r : Vector RegexStatsBurst n) : Vector RegexStatsBurst m :=
  Vector.ofFn fun j =>
    have hj : j.val < n := j.isLt.trans_le hmn
    addBucket bucketSize j s[j] r[j.val]

/-- `hs_stats->x += svstats[i]->hs_stats->x`, for each of the four counters. -/
def addHsStats (s r : HsStats) : HsStats where
  totalScans := s.totalScans + r.totalScans
  totalScansUs := s.totalScansUs + r.totalScansUs
  totalScansCycles := s.totalScansCycles + r.totalScansCycles
  totalMatches := s.totalMatches + r.totalMatches

/-- `lc_stats->x += svstats[i]->lcore_stats->x`, for both counters. -/
def addLcoreStats (s r : LcoreStats) : LcoreStats where
  wastedCycles := s.wastedCycles + r.wastedCycles
  usefulCycles := s.usefulCycles + r.usefulCycles

/-- One loop over the workers: entries without the block `get` are skipped. -/
def overWorkers {n : ℕ} {S R : Type} (get : AppStats n → Option R) (add : S → R → S) (zero : S)
    (svstats : List (Option (AppStats n))) : S :=
  svstats.foldl (fun s entry =>
    match entry with
    | none => s
    | some stats =>
      match get stats with
      | none => s
      | some r => add s r) zero

/-- The three loops over the workers, with `m` buckets in `s`. -/
def aggregate {m n : ℕ} (hmn : m ≤ n) (bucketSize : ℕ) (svstats : List (Option (AppStats n))) :
    Aggregated m where
  regexStats := overWorkers AppStats.regexStats (addRegexStats hmn bucketSize)
    (Vector.replicate m .zero) svstats
  hsStats := overWorkers AppStats.hsStats addHsStats ⟨0, 0, 0, 0⟩ svstats
  lcoreStats := overWorkers AppStats.lcoreStats addLcoreStats ⟨0, 0⟩ svstats

/-- The parameter `uint16_t rgx_bkt_cnt`, for which `main` passes the number of buckets. -/
def AppArgs.rgxBktCnt (args : AppArgs) : ℕ := args.rgxStatsHistogramBucketCnt % 2 ^ 16

theorem AppArgs.rgxBktCnt_le (args : AppArgs) : args.rgxBktCnt ≤ args.rgxStatsHistogramBucketCnt :=
  Nat.mod_le _ _

/-- `app_stats_dump` up to its first line of output. `rte_calloc` has no memory for no buckets, and
`rte_panic` ends the program. -/
def appStatsDump (args : AppArgs)
    (svstats : List (Option (AppStats args.rgxStatsHistogramBucketCnt))) :
    Option (Aggregated args.rgxBktCnt) :=
  if args.rgxBktCnt = 0 then none
  else some (aggregate args.rgxBktCnt_le args.rgxStatsHistogramBucketSize svstats)

/-! ## What is printed -/

/-- What the lines of the report show: the buckets that the loops of the regex engine go over, if it
is enabled, and the other two blocks. -/
structure Printed where
  buckets : List RegexStatsBurst
  hsStats : HsStats
  lcoreStats : LcoreStats
deriving DecidableEq

/-- The buckets that are printed. The loops take all buckets of the histogram, and read past `s` if
it has fewer; then there is no defined output. -/
def printedBuckets {m : ℕ} (args : AppArgs) (s : Vector RegexStatsBurst m) :
    Option (List RegexStatsBurst) :=
  if args.rgxEnabled then (List.range args.rgxStatsHistogramBucketCnt).mapM fun i => s[i]?
  else some []

/-- `app_stats_dump` up to the texts of its lines. -/
def statsReport (args : AppArgs)
    (svstats : List (Option (AppStats args.rgxStatsHistogramBucketCnt))) : Option Printed :=
  (appStatsDump args svstats).bind fun agg =>
    (printedBuckets args agg.regexStats).map fun buckets =>
      ⟨buckets, agg.hsStats, agg.lcoreStats⟩

/-- There is a report: `rgx_bkt_cnt` is not zero, and not cut if the buckets are printed. -/
def AppArgs.Prints (args : AppArgs) : Prop :=
  args.rgxBktCnt ≠ 0 ∧ (args.rgxEnabled = true → args.rgxStatsHistogramBucketCnt < 2 ^ 16)

instance (args : AppArgs) : Decidable args.Prints := inferInstanceAs (Decidable (_ ∧ _))

/-! ## What is printed for the regex engine -/

/-- The results printed for each bucket: `RESULT-rgx_bs<burst_size>_<metric> <value>`. -/
inductive RgxMetric
  | enqBrstCnt
  | enqBrstPktsCnt
  | deqBrstCnt
  | deqBrstPktsCnt
  | patternsMatched
  | deqRttTtlUs
  | deqAvgRttUs
  | deqRttTtlCycles
  | deqAvgRttCycles
deriving DecidableEq, Repr

/-- The name of such a result. The burst size is printed as a 16-bit number. -/
structure RgxColumn where
  bs : ℕ
  metric : RgxMetric
deriving DecidableEq, Repr

/-- `cnt == 0 ? 0 : total / cnt`. -/
def average (total cnt : UInt64) : UInt64 := if cnt = 0 then 0 else total / cnt

/-- The lines printed for one bucket. -/
def bucketResults (s : RegexStatsBurst) : List (RgxColumn × UInt64) :=
  let bs := s.burstSize.toNat % 2 ^ 16
  [(⟨bs, .enqBrstCnt⟩, s.enqBurstCnt),
   (⟨bs, .enqBrstPktsCnt⟩, s.enqBurstPktsCnt),
   (⟨bs, .deqBrstCnt⟩, s.deqBurstCnt),
   (⟨bs, .deqBrstPktsCnt⟩, s.deqBurstPktCnt),
   (⟨bs, .patternsMatched⟩, s.matchesTotal),
   (⟨bs, .deqRttTtlUs⟩, s.deqRTTTotalUs),
   (⟨bs, .deqAvgRttUs⟩, average s.deqRTTTotalUs s.deqBurstPktCnt),
   (⟨bs, .deqRttTtlCycles⟩, s.deqRTTTotalCycles),
   (⟨bs, .deqAvgRttCycles⟩, average s.deqRTTTotalCycles s.deqBurstPktCnt)]

/-- The results printed for the regex engine. -/
def rgxResults (args : AppArgs) (buckets : List RegexStatsBurst) : List (RgxColumn × UInt64) :=
  if args.rgxEnabled ∧ args.explibOut then buckets.flatMap bucketResults else []

end RegexTest
end PamoRxpBench
