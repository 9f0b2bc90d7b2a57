import PamoRxpBench.Autotest.Process
import PamoRxpBench.RegexTest.StatsTheorems
import PamoRxpBench.RegexTest.StatsDumpTheorems
import Mathlib.Algebra.BigOperators.Ring.Finset
import Mathlib.Tactic.NormNum
import Mathlib.Tactic.FieldSimp

/-!
# How far the reported latency is from the mean

Three steps: what the report prints for bucket `j` (`printed_avg`, `printed_cnt`), the
recombination of the sixteen buckets (`sumBuckets_eq`), and the sum of the integer divisions
(`reportedLatency_eq`). Each printed average divides the cycles of the packets of bucket
`j - 1` by the number of packets of bucket `j`, so what is lost is not the rounding of a mean:
`latencyIsMean_iff` says exactly how much may be lost.
-/

namespace PamoRxpBench
namespace Autotest

open RegexTest Counters
open Finset (range mem_range sum_congr sum_add_distrib sum_range_succ sum_range_succ')

/-! ## Reading a row -/

theorem foldl_set_of_not_mem (results : List (RgxColumn × UInt64)) (row : Row) (c : RgxColumn)
    (hc : c ∉ results.map Prod.fst) :
    results.foldl Row.set row c = row c := by
  induction results generalizing row with
  | nil => rfl
  | cons r rest ih =>
    rw [List.map_cons, List.mem_cons, not_or] at hc
    rw [List.foldl_cons, ih _ hc.2, Row.set, Function.update_of_ne hc.1]

/-- With distinct names, every printed result is in the row. -/
theorem resultRow_of_mem {results : List (RgxColumn × UInt64)} {c : RgxColumn} {v : UInt64}
    (hnd : (results.map Prod.fst).Nodup) (hcv : (c, v) ∈ results) :
    resultRow results c = some (v.toNat : ℚ) := by
  unfold resultRow
  generalize (fun _ => none : Row) = row
  induction results generalizing row with
  | nil => exact absurd hcv List.not_mem_nil
  | cons r rest ih =>
    rw [List.map_cons, List.nodup_cons] at hnd
    rw [List.foldl_cons]
    rcases List.mem_cons.mp hcv with rfl | hrest
    · rw [foldl_set_of_not_mem rest _ _ hnd.1, Row.set, Function.update_self]
    · exact ih hnd.2 hrest _

/-- The results of buckets with distinct burst sizes have distinct names. -/
theorem nodup_bucketResults {buckets : List RegexStatsBurst}
    (h : buckets.Pairwise fun a b => a.burstSize.toNat % 2 ^ 16 ≠ b.burstSize.toNat % 2 ^ 16) :
    ((buckets.flatMap bucketResults).map Prod.fst).Nodup := by
  rw [List.map_flatMap, List.nodup_flatMap]
  refine ⟨fun b _ => ?_, h.imp fun {a b} hab => ?_⟩
  · simp [bucketResults]
  · intro c hca hcb
    have hbs : ∀ {s : RegexStatsBurst}, c ∈ (bucketResults s).map Prod.fst →
        c.bs = s.burstSize.toNat % 2 ^ 16 := by
      intro s hs
      simp only [bucketResults, List.map_cons, List.map_nil, List.mem_cons, List.not_mem_nil,
        or_false] at hs
      rcases hs with rfl | rfl | rfl | rfl | rfl | rfl | rfl | rfl | rfl <;> rfl
    exact hab ((hbs hca).symm.trans (hbs hcb))

/-- The average is the quotient of the values; no packets give zero. -/
theorem toNat_average (total cnt : UInt64) :
    (average total cnt).toNat = total.toNat / cnt.toNat := by
  unfold average
  split
  · rename_i hcnt
    rw [hcnt]
    exact (Nat.div_zero _).symm
  · exact UInt64.toNat_div _ _

/-! ## The sixteen buckets -/

theorem sumBuckets_append (row : Row) (xs ys : List ℕ) (lat pkts : ℚ) :
    sumBuckets row (xs ++ ys) lat pkts
      = (sumBuckets row xs lat pkts).bind fun total => sumBuckets row ys total.1 total.2 := by
  induction xs generalizing lat pkts with
  | nil => rfl
  | cons bs rest ih =>
    rw [List.cons_append, sumBuckets, sumBuckets]
    simp only [ih, Option.bind_assoc]

/-- The hard-coded bucket sizes are those of sixteen buckets of four. -/
theorem bucketSizes_eq : bucketSizes = (List.range 16).map fun j => (j + 1) * 4 := by
  decide

/-- The loop over the sizes of `n` buckets of four, indexed by the bucket. -/
theorem sumBuckets_range {row : Row} {avg cnt : ℕ → ℚ} (n : ℕ)
    (havg : ∀ j < n, row ⟨(j + 1) * 4, .deqAvgRttCycles⟩ = some (avg j))
    (hcnt : ∀ j < n, row ⟨(j + 1) * 4, .deqBrstPktsCnt⟩ = some (cnt j)) :
    sumBuckets row ((List.range n).map fun j => (j + 1) * 4) 0 0
      = some (∑ j ∈ range n, avg j * cnt j, ∑ j ∈ range n, cnt j) := by
  induction n with
  | zero => rfl
  | succ n ih =>
    rw [List.range_succ, List.map_append, List.map_cons, List.map_nil, sumBuckets_append,
      ih (fun j hj => havg j (by omega)) (fun j hj => hcnt j (by omega)), Option.bind_some,
      sumBuckets, havg n (by omega), hcnt n (by omega), Option.bind_some, Option.bind_some,
      sumBuckets, sum_range_succ, sum_range_succ]

/-! ## What is printed for a run -/

/-- The default histogram of `regex-test`: sixteen buckets of four packets. -/
structure DefaultHistogram (args : AppArgs) : Prop where
  bucketSize : args.rgxStatsHistogramBucketSize = 4
  burstSize : args.portBurstSize = 64

theorem DefaultHistogram.histogram {args : AppArgs} (h : DefaultHistogram args) :
    args.Histogram where
  size_pos := by rw [h.bucketSize]; decide
  size_dvd := by rw [h.bucketSize, h.burstSize]; decide

theorem DefaultHistogram.prints {args : AppArgs} (h : DefaultHistogram args) : args.Prints := by
  rw [AppArgs.Prints, AppArgs.rgxBktCnt, AppArgs.rgxStatsHistogramBucketCnt, h.bucketSize,
    h.burstSize]
  exact ⟨by decide, fun _ => by decide⟩

theorem DefaultHistogram.bucketCnt {args : AppArgs} (h : DefaultHistogram args) :
    args.rgxStatsHistogramBucketCnt = 16 := by
  rw [AppArgs.rgxStatsHistogramBucketCnt, h.bucketSize, h.burstSize]

/-- The total RTT of some packets, in cycles. -/
def cycles (pkts : List Dequeued) : ℕ := (pkts.map fun p => p.rttCycles.toNat).sum

@[simp] theorem cycles_nil : cycles [] = 0 := rfl

theorem cycles_le_of_sublist {xs ys : List Dequeued} (h : xs.Sublist ys) : cycles xs ≤ cycles ys :=
  (h.map _).sum_le_sum fun _ _ => Nat.zero_le _

theorem dequeuedIn_sublist (args : AppArgs) (b : ℕ) (bursts : List (List Dequeued)) :
    (dequeuedIn args b bursts).Sublist bursts.flatten :=
  List.filter_sublist.flatten

theorem dequeuedBefore_sublist (args : AppArgs) (b : ℕ) (bursts : List (List Dequeued)) :
    (dequeuedBefore args b bursts).Sublist bursts.flatten := by
  cases b with
  | zero => exact List.nil_sublist _
  | succ b => exact dequeuedIn_sublist args b bursts

variable {args : AppArgs} {ticksPerUs : UInt64} {runs : List (List (List Dequeued))}

theorem blocks_runStats :
    blocks AppStats.regexStats (runStats args ticksPerUs runs)
      = runs.map fun bursts => (dequeueRun args ticksPerUs bursts).buckets := by
  simp [blocks, runStats, List.filterMap_map]

/-- Every burst holds between one packet and a full one. -/
def BurstsFit (args : AppArgs) (runs : List (List (List Dequeued))) : Prop :=
  ∀ bursts ∈ runs, ∀ pkts ∈ bursts, 1 ≤ pkts.length ∧ pkts.length ≤ args.portBurstSize

/-- The aggregated packet count of a bucket: its own packets, of all workers. -/
theorem report_pktCnt (h : args.Histogram) (hruns : BurstsFit args runs) {j : ℕ}
    (hj : j < args.rgxStatsHistogramBucketCnt) :
    ((totalHistogram args (runStats args ticksPerUs runs))[j]).deqBurstPktCnt
      = UInt64.ofNat (dequeuedIn args j runs.flatten).length := by
  have hget := aggregate_regex_get le_rfl args.rgxStatsHistogramBucketSize
      (runStats args ticksPerUs runs) j hj hj
    .deqBurstPktCnt
  rw [blocks_runStats, List.map_map, addedField_of_ne (by decide)] at hget
  refine hget.trans ?_
  clear hget
  induction runs with
  | nil => rfl
  | cons bursts rest ih =>
    have hrest : BurstsFit args rest := fun b hb => hruns b (List.mem_cons_of_mem _ hb)
    rw [List.map_cons, List.sum_cons, ih hrest, Function.comp_apply,
      dequeueRun_pktCnt h ticksPerUs (hruns bursts List.mem_cons_self) hj, List.flatten_cons,
      dequeuedIn_append, List.length_append, UInt64.ofNat_add]

/-- The aggregated cycles of a bucket: those of the packets of the bucket before it. -/
theorem report_cycles (h : args.Histogram) (hruns : BurstsFit args runs) {j : ℕ}
    (hj : j < args.rgxStatsHistogramBucketCnt) :
    ((totalHistogram args (runStats args ticksPerUs runs))[j]).deqRTTTotalCycles
      = ((dequeuedBefore args j runs.flatten).map Dequeued.rttCycles).sum := by
  have hget := aggregate_regex_get le_rfl args.rgxStatsHistogramBucketSize
      (runStats args ticksPerUs runs) j hj hj
    .deqRTTTotalCycles
  rw [blocks_runStats, List.map_map, addedField_of_ne (by decide)] at hget
  refine hget.trans ?_
  clear hget
  induction runs with
  | nil => cases j <;> rfl
  | cons bursts rest ih =>
    have hrest : BurstsFit args rest := fun b hb => hruns b (List.mem_cons_of_mem _ hb)
    rw [List.map_cons, List.sum_cons, ih hrest, Function.comp_apply,
      dequeueRun_cycles h ticksPerUs (hruns bursts List.mem_cons_self) hj, List.flatten_cons,
      dequeuedBefore_append, List.map_append, List.sum_append]

theorem report_burstSize (hne : runs ≠ []) {j : ℕ} (hj : j < args.rgxStatsHistogramBucketCnt) :
    ((totalHistogram args (runStats args ticksPerUs runs))[j]).burstSize
      = UInt32.ofNat ((j + 1) * args.rgxStatsHistogramBucketSize) := by
  refine aggregate_burstSize le_rfl _ _ j hj ?_
  rw [blocks_runStats]
  simpa using hne

section Printed

variable (ticksPerUs) (hdef : DefaultHistogram args) (hruns : BurstsFit args runs)
  (hcycles : cycles runs.flatten.flatten < 2 ^ 64) (hpkts : runs.flatten.flatten.length < 2 ^ 64)
include hdef

include hruns hpkts in
theorem report_pktCnt_toNat {j : ℕ} (hj : j < args.rgxStatsHistogramBucketCnt) :
    ((totalHistogram args (runStats args ticksPerUs runs))[j]).deqBurstPktCnt.toNat
      = (dequeuedIn args j runs.flatten).length := by
  have hle := (dequeuedIn_sublist args j runs.flatten).length_le
  rw [report_pktCnt hdef.histogram hruns hj, UInt64.toNat_ofNat']
  exact Nat.mod_eq_of_lt (Nat.lt_of_le_of_lt hle hpkts)

include hruns hcycles in
/-- The cycles of a bucket do not wrap. -/
theorem report_cycles_toNat {j : ℕ} (hj : j < args.rgxStatsHistogramBucketCnt) :
    ((totalHistogram args (runStats args ticksPerUs runs))[j]).deqRTTTotalCycles.toNat
      = cycles (dequeuedBefore args j runs.flatten) := by
  have hle := cycles_le_of_sublist (dequeuedBefore_sublist args j runs.flatten)
  have heq : (((dequeuedBefore args j runs.flatten).map Dequeued.rttCycles).map
      UInt64.toNat).sum = cycles (dequeuedBefore args j runs.flatten) := by
    rw [List.map_map]
    rfl
  rw [report_cycles hdef.histogram hruns hj, toNat_sum_of_lt, heq]
  rw [heq]
  exact Nat.lt_of_le_of_lt hle hcycles

/-- Bucket `j` is printed under the burst size `4 * (j + 1)`. -/
theorem report_label (hne : runs ≠ []) {j : ℕ} (hj : j < args.rgxStatsHistogramBucketCnt) :
    ((totalHistogram args (runStats args ticksPerUs runs))[j]).burstSize.toNat % 2 ^ 16
      = (j + 1) * 4 := by
  rw [report_burstSize hne hj, hdef.bucketSize, UInt32.toNat_ofNat']
  rw [hdef.bucketCnt] at hj
  omega

/-- The sixteen buckets are printed under distinct names. -/
theorem report_nodup (hne : runs ≠ []) :
    (((totalHistogram args (runStats args ticksPerUs runs)).toList.flatMap
      bucketResults).map Prod.fst).Nodup := by
  apply nodup_bucketResults
  rw [List.pairwise_iff_getElem]
  intro i j hi hj hij
  rw [Vector.length_toList] at hi hj
  rw [Vector.getElem_toList, Vector.getElem_toList, report_label ticksPerUs hdef hne hi,
    report_label ticksPerUs hdef hne hj]
  omega

variable (hrgx : args.rgxEnabled = true) (hout : args.explibOut = true) (hne : runs ≠ [])
include hrgx hout hne

/-- The row has every result that is printed for a bucket. -/
theorem row_of_bucket {j : ℕ} (hj : j < args.rgxStatsHistogramBucketCnt) {c : RgxColumn}
    {v : UInt64}
    (hv : (c, v) ∈
      bucketResults (totalHistogram args (runStats args ticksPerUs runs))[j]) :
    resultRow (rgxResults args (totalHistogram args (runStats args ticksPerUs runs)).toList) c
      = some (v.toNat : ℚ) := by
  rw [rgxResults, if_pos ⟨hrgx, hout⟩]
  refine resultRow_of_mem (report_nodup ticksPerUs hdef hne) (List.mem_flatMap.mpr ⟨_, ?_, hv⟩)
  exact Vector.mem_toList_iff.mpr (Vector.getElem_mem hj)

include hruns hpkts in
theorem row_cnt {j : ℕ} (hj : j < args.rgxStatsHistogramBucketCnt) :
    resultRow (rgxResults args (totalHistogram args (runStats args ticksPerUs runs)).toList)
      ⟨(j + 1) * 4, .deqBrstPktsCnt⟩ = some ((dequeuedIn args j runs.flatten).length : ℚ) := by
  rw [← report_pktCnt_toNat ticksPerUs hdef hruns hpkts hj]
  refine row_of_bucket ticksPerUs hdef hrgx hout hne hj ?_
  simp only [bucketResults, report_label ticksPerUs hdef hne hj]
  simp

include hruns hpkts hcycles in
theorem row_avg {j : ℕ} (hj : j < args.rgxStatsHistogramBucketCnt) :
    resultRow (rgxResults args (totalHistogram args (runStats args ticksPerUs runs)).toList)
      ⟨(j + 1) * 4, .deqAvgRttCycles⟩
      = some (((cycles (dequeuedBefore args j runs.flatten)
          / (dequeuedIn args j runs.flatten).length : ℕ)) : ℚ) := by
  rw [← report_pktCnt_toNat ticksPerUs hdef hruns hpkts hj,
    ← report_cycles_toNat ticksPerUs hdef hruns hcycles hj,
    ← toNat_average]
  refine row_of_bucket ticksPerUs hdef hrgx hout hne hj ?_
  simp only [bucketResults, report_label ticksPerUs hdef hne hj]
  simp

end Printed

/-! ## The loss -/

/-- The total the weighted average is taken over: for each bucket its printed average times
its packets. -/
def recombined (args : AppArgs) (bursts : List (List Dequeued)) : ℕ :=
  ∑ j ∈ range 16, cycles (dequeuedBefore args j bursts) / (dequeuedIn args j bursts).length
    * (dequeuedIn args j bursts).length

/-- What the sixteen integer divisions drop. A bucket without packets drops all the cycles
it was credited. -/
def lostCycles (args : AppArgs) (bursts : List (List Dequeued)) : ℕ :=
  ∑ j ∈ range 16, cycles (dequeuedBefore args j bursts) % (dequeuedIn args j bursts).length

/-- The sixteen buckets hold all the packets. -/
theorem sum_bucketPkts (hdef : DefaultHistogram args) {bursts : List (List Dequeued)}
    (hbursts : ∀ pkts ∈ bursts, 1 ≤ pkts.length ∧ pkts.length ≤ args.portBurstSize) :
    ∑ j ∈ range 16, (dequeuedIn args j bursts).length = bursts.flatten.length := by
  have h := sum_dequeuedIn hdef.histogram hbursts fun _ => 1
  simp only [List.map_const', List.sum_replicate_nat, mul_one] at h
  rw [← hdef.bucketCnt, h]

/-- No burst that belongs to the last bucket: all cycles are credited to some bucket. -/
theorem recombined_add_lostCycles (hdef : DefaultHistogram args) {bursts : List (List Dequeued)}
    (hbursts : ∀ pkts ∈ bursts, 1 ≤ pkts.length ∧ pkts.length ≤ 60) :
    recombined args bursts + lostCycles args bursts = cycles bursts.flatten := by
  have hfit : ∀ pkts ∈ bursts, 1 ≤ pkts.length ∧ pkts.length ≤ args.portBurstSize := by
    intro pkts hp
    rw [hdef.burstSize]
    exact ⟨(hbursts pkts hp).1, (hbursts pkts hp).2.trans (by decide)⟩
  -- the cycles of the last bucket would be credited past the end of the array
  have hlast : dequeuedIn args 15 bursts = [] := by
    rw [dequeuedIn, List.filter_eq_nil_iff.mpr, List.flatten_nil]
    intro pkts hp hin
    have hlo := (of_decide_eq_true hin).1
    have hhi := (hbursts pkts hp).2
    rw [hdef.bucketSize] at hlo
    omega
  calc recombined args bursts + lostCycles args bursts
      = ∑ j ∈ range 16, cycles (dequeuedBefore args j bursts) := by
        rw [recombined, lostCycles, ← sum_add_distrib]
        exact sum_congr rfl fun j _ => by rw [Nat.mul_comm, Nat.div_add_mod]
    _ = ∑ j ∈ range 15, cycles (dequeuedIn args j bursts) := by
        rw [sum_range_succ', dequeuedBefore, cycles_nil, add_zero]
        exact sum_congr rfl fun j _ => by rw [dequeuedBefore]
    _ = ∑ j ∈ range 16, cycles (dequeuedIn args j bursts) := by
        rw [sum_range_succ _ 15, hlast, cycles_nil, add_zero]
    _ = cycles bursts.flatten := by
        rw [← hdef.bucketCnt]
        exact sum_dequeuedIn hdef.histogram hfit _

/-- The number that is reported for a run that stays inside the statistics array. -/
theorem reportedLatency_eq (hdef : DefaultHistogram args) (hrgx : args.rgxEnabled = true)
    (hout : args.explibOut = true) (hruns : BurstsFit args runs)
    (hpos : 0 < runs.flatten.flatten.length) (hcycles : cycles runs.flatten.flatten < 2 ^ 64)
    (hpkts : runs.flatten.flatten.length < 2 ^ 64)
    (hwild : ∀ bursts ∈ runs, (dequeueRun args ticksPerUs bursts).wild = 0) :
    reportedLatency args ticksPerUs runs
      = some ((recombined args runs.flatten : ℚ) / runs.flatten.flatten.length) := by
  have hne : runs ≠ [] := by
    rintro rfl
    exact absurd hpos (by decide)
  have hlt : ∀ {j}, j < 16 → j < args.rgxStatsHistogramBucketCnt := by
    intro j hj
    rwa [hdef.bucketCnt]
  rw [reportedLatency, printedResults, if_pos hwild, statsReport_eq, if_pos hdef.prints,
    Option.map_some, totalPrinted, if_pos hrgx, Option.bind_some, weightedAvgLatencyCycles,
    bucketSizes_eq, sumBuckets_range 16
      (fun j hj => row_avg ticksPerUs hdef hruns hcycles hpkts hrgx hout hne (hlt hj))
      (fun j hj => row_cnt ticksPerUs hdef hruns hpkts hrgx hout hne (hlt hj))]
  -- the denominator: every packet was dequeued in one of the buckets
  have hcnt : ∑ j ∈ range 16, ((dequeuedIn args j runs.flatten).length : ℚ)
      = runs.flatten.flatten.length := by
    rw [← sum_bucketPkts hdef (fun pkts hp => ?_), Nat.cast_sum]
    obtain ⟨bursts, hb, hp⟩ := List.mem_flatten.mp hp
    exact hruns bursts hb pkts hp
  -- the numerator: the printed averages, multiplied by the packets again
  have hnum : ∑ j ∈ range 16, ((cycles (dequeuedBefore args j runs.flatten)
        / (dequeuedIn args j runs.flatten).length : ℕ) : ℚ)
        * ((dequeuedIn args j runs.flatten).length : ℚ)
      = recombined args runs.flatten := by
    rw [recombined, Nat.cast_sum]
    exact sum_congr rfl fun j _ => (Nat.cast_mul _ _).symm
  rw [hcnt, hnum, Option.map_some, if_pos]
  exact Nat.cast_pos.mpr hpos

/-- The reported latency is at most the mean RTT of all dequeued packets and more than one
cycle below it at most: the published numbers rest on this. -/
def LatencyIsMean (args : AppArgs) (ticksPerUs : UInt64) (runs : List (List (List Dequeued))) :
    Prop :=
  ∃ latency, reportedLatency args ticksPerUs runs = some latency ∧
    latency ≤ (cycles runs.flatten.flatten : ℚ) / runs.flatten.flatten.length ∧
    (cycles runs.flatten.flatten : ℚ) / runs.flatten.flatten.length - 1 < latency

/-- **When the reported latency is the mean**: no burst overruns the array, and the divisions
of the cycles of each bucket by the packets of the next drop less than a cycle a packet. -/
theorem latencyIsMean_iff (hdef : DefaultHistogram args) (hrgx : args.rgxEnabled = true)
    (hout : args.explibOut = true) (ticksPerUs : UInt64) (runs : List (List (List Dequeued)))
    (hruns : BurstsFit args runs) (hpos : 0 < runs.flatten.flatten.length)
    (hcycles : cycles runs.flatten.flatten < 2 ^ 64)
    (hpkts : runs.flatten.flatten.length < 2 ^ 64) :
    LatencyIsMean args ticksPerUs runs ↔
      (∀ bursts ∈ runs, ∀ pkts ∈ bursts, pkts.length ≤ 60) ∧
        lostCycles args runs.flatten < runs.flatten.flatten.length := by
  have hbounds : (∀ bursts ∈ runs, (dequeueRun args ticksPerUs bursts).wild = 0) ↔
      ∀ bursts ∈ runs, ∀ pkts ∈ bursts, pkts.length ≤ 60 := by
    refine forall₂_congr fun bursts hb => ?_
    rw [dequeueRun_inBounds_iff hdef.histogram ticksPerUs bursts (hruns bursts hb),
      hdef.bucketSize, hdef.burstSize]
    exact forall₂_congr fun pkts _ => by omega
  have hN : (0 : ℚ) < runs.flatten.flatten.length := Nat.cast_pos.mpr hpos
  -- with every division accounted for, the two bounds are two inequalities on naturals
  have hsplit (hsmall : ∀ bursts ∈ runs, ∀ pkts ∈ bursts, pkts.length ≤ 60) :
      recombined args runs.flatten + lostCycles args runs.flatten
        = cycles runs.flatten.flatten := by
    refine recombined_add_lostCycles hdef fun pkts hp => ?_
    obtain ⟨bursts, hb, hp⟩ := List.mem_flatten.mp hp
    exact ⟨(hruns bursts hb pkts hp).1, hsmall bursts hb pkts hp⟩
  constructor
  · rintro ⟨latency, hlat, -, hlow⟩
    have hwild : ∀ bursts ∈ runs, (dequeueRun args ticksPerUs bursts).wild = 0 := by
      by_contra hnot
      rw [reportedLatency, printedResults, if_neg hnot] at hlat
      cases hlat
    rw [reportedLatency_eq hdef hrgx hout hruns hpos hcycles hpkts hwild] at hlat
    obtain rfl := Option.some.inj hlat
    have hsmall := hbounds.mp hwild
    refine ⟨hsmall, ?_⟩
    rw [sub_lt_iff_lt_add, ← hsplit hsmall, div_add_one hN.ne', div_lt_div_iff_of_pos_right hN]
      at hlow
    have hlow : recombined args runs.flatten + lostCycles args runs.flatten
        < recombined args runs.flatten + runs.flatten.flatten.length := by exact_mod_cast hlow
    exact Nat.lt_of_add_lt_add_left hlow
  · rintro ⟨hsmall, hloss⟩
    refine ⟨_, reportedLatency_eq hdef hrgx hout hruns hpos hcycles hpkts (hbounds.mpr hsmall),
      ?_, ?_⟩
    · rw [div_le_div_iff_of_pos_right hN, Nat.cast_le, ← hsplit hsmall]
      exact Nat.le_add_right _ _
    · rw [sub_lt_iff_lt_add, div_add_one hN.ne', div_lt_div_iff_of_pos_right hN,
        ← hsplit hsmall]
      exact_mod_cast Nat.add_lt_add_left hloss _

theorem gAppArgs_defaultHistogram (matchMode : ℕ) : DefaultHistogram (gAppArgs matchMode) :=
  ⟨rfl, rfl⟩

/-- One packet of 100 cycles is reported as a latency of zero: the cycles are in bucket 1,
which has no packets. -/
theorem latencyIsMean_onePacket : ¬ LatencyIsMean (gAppArgs 0) 1 [[[⟨1, 100⟩]]] := by
  rintro ⟨latency, hlat, -, hlow⟩
  have hzero : reportedLatency (gAppArgs 0) 1 [[[⟨1, 100⟩]]] = some 0 := by
    rw [reportedLatency_eq (gAppArgs_defaultHistogram 0) rfl rfl (by unfold BurstsFit; decide)
        (by decide) (by decide) (by decide) (by decide),
      show recombined (gAppArgs 0) [[[(⟨1, 100⟩ : Dequeued)]]].flatten = 0 by decide]
    simp
  obtain rfl := Option.some.inj (hzero.symm.trans hlat)
  rw [show cycles [[[(⟨1, 100⟩ : Dequeued)]]].flatten.flatten = 100 by decide] at hlow
  norm_num at hlow

/-- A burst of one packet with ten cycles and one of five packets with none: the ten cycles
are divided by five and nothing is lost. -/
theorem latencyIsMean_twoBursts :
    LatencyIsMean (gAppArgs 0) 1 [[[⟨1, 10⟩], List.replicate 5 ⟨0, 0⟩]] :=
  (latencyIsMean_iff (gAppArgs_defaultHistogram 0) rfl rfl 1 _ (by unfold BurstsFit; decide)
    (by decide) (by decide) (by decide)).mpr ⟨by decide, by decide⟩

end Autotest
end PamoRxpBench
