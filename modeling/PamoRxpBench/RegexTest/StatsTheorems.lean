import PamoRxpBench.RegexTest.Stats
import Mathlib.Algebra.BigOperators.Group.Finset.Basic
import Mathlib.Tactic.Ring
import Mathlib.Tactic.Linarith

/-!
# Which bucket a dequeue burst is credited to

`worker_rx_pkts` finds the bucket of a burst with a search loop over `stats_i = 1, 2, …` and
credits the burst and its packets to `stats[stats_i - 1]`. The loop over the dequeued ops
that follows reuses `stats_i` and credits matches and round-trip times to `stats[stats_i]`,
one bucket further on.

* `statsI_spec`: the search finds the bucket whose range holds the burst;
* `mem_dequeueWrites`: every write of a burst, with its index;
* `dequeueStats_attributed_iff`: so the statistics are attributed to one valid bucket in
  exactly the runs that dequeue nothing;
* `dequeueRun_inBounds_iff`: the array is overrun exactly by bursts that belong to its last
  bucket.
-/

namespace PamoRxpBench
namespace RegexTest

open Finset (range mem_range sum_add_distrib sum_eq_single)

/-- Bucket `b` counts the bursts of more than `b * size` and at most `(b + 1) * size`
packets: more than the previous `burst_size`, at most its own. -/
def InBucket (args : AppArgs) (b n : ℕ) : Prop :=
  b * args.rgxStatsHistogramBucketSize < n ∧ n ≤ (b + 1) * args.rgxStatsHistogramBucketSize

instance (args : AppArgs) (b n : ℕ) : Decidable (InBucket args b n) :=
  inferInstanceAs (Decidable (_ ∧ _))

/-- A burst has one bucket. -/
theorem InBucket.unique {args : AppArgs} {b c n : ℕ} (hb : InBucket args b n)
    (hc : InBucket args c n) : b = c := by
  by_contra hne
  rcases Nat.lt_or_gt_of_ne hne with h | h
  · exact absurd (Nat.lt_of_le_of_lt (Nat.mul_le_mul_right _ h) hc.1) (Nat.not_lt.mpr hb.2)
  · exact absurd (Nat.lt_of_le_of_lt (Nat.mul_le_mul_right _ h) hb.1) (Nat.not_lt.mpr hc.2)

/-! ## The search loop -/

/-- The search stops at the first `stats_i` whose bucket is large enough. -/
theorem bucketLoop_spec {size n : ℕ} (k i : ℕ) (hlo : ∀ j, j < i → j * size < n)
    (hhi : n ≤ (i + k - 1) * size) (hk : 0 < k) :
    i ≤ bucketLoop size n k i ∧ bucketLoop size n k i < i + k
      ∧ n ≤ bucketLoop size n k i * size
      ∧ ∀ j, j < bucketLoop size n k i → j * size < n := by
  induction k generalizing i with
  | zero => omega
  | succ k ih =>
    rw [bucketLoop]
    split
    · rename_i h
      exact ⟨le_refl i, by omega, h, hlo⟩
    · rename_i h
      have hk' : 0 < k := by
        rcases Nat.eq_zero_or_pos k with rfl | hk'
        · exact absurd hhi h
        · exact hk'
      -- `i` was too small as well, which is what the loop goes on with
      have hlo' : ∀ j, j < i + 1 → j * size < n := by
        intro j hj
        rcases Nat.lt_succ_iff_lt_or_eq.mp hj with hj | rfl
        · exact hlo j hj
        · omega
      have hhi' : n ≤ (i + 1 + k - 1) * size := by
        rwa [show i + 1 + k - 1 = i + (k + 1) - 1 by omega]
      obtain ⟨h1, h2, h3, h4⟩ := ih (i + 1) hlo' hhi' hk'
      exact ⟨by omega, by omega, h3, h4⟩

/-- What the command line promises about the histogram: the bucket size is positive and
divides the burst size. -/
structure AppArgs.Histogram (args : AppArgs) : Prop where
  size_pos : 0 < args.rgxStatsHistogramBucketSize
  size_dvd : args.rgxStatsHistogramBucketSize ∣ args.portBurstSize

theorem AppArgs.Histogram.cnt_mul_size {args : AppArgs} (h : args.Histogram) :
    args.rgxStatsHistogramBucketCnt * args.rgxStatsHistogramBucketSize = args.portBurstSize :=
  Nat.div_mul_cancel h.size_dvd

/-- After the search `stats_i - 1` is an index of the array, and the bucket of the burst. -/
theorem statsI_spec {args : AppArgs} (h : args.Histogram) {n : ℕ} (hpos : 0 < n)
    (hn : n ≤ args.portBurstSize) :
    1 ≤ statsI args n ∧ statsI args n ≤ args.rgxStatsHistogramBucketCnt
      ∧ InBucket args (statsI args n - 1) n := by
  have hcnt := h.cnt_mul_size
  have hcnt_pos : 0 < args.rgxStatsHistogramBucketCnt := by
    rcases Nat.eq_zero_or_pos args.rgxStatsHistogramBucketCnt with h0 | h0
    · rw [h0, Nat.zero_mul] at hcnt
      omega
    · exact h0
  have hlo : ∀ j, j < 1 → j * args.rgxStatsHistogramBucketSize < n := by
    intro j hj
    obtain rfl : j = 0 := by omega
    simpa using hpos
  have hhi : n ≤ (1 + args.rgxStatsHistogramBucketCnt - 1) * args.rgxStatsHistogramBucketSize := by
    rw [Nat.add_sub_cancel_left, hcnt]
    exact hn
  obtain ⟨h1, h2, h3, h4⟩ := bucketLoop_spec _ 1 hlo hhi hcnt_pos
  refine ⟨h1, by rw [statsI]; omega, h4 _ ?_, ?_⟩
  · show statsI args n - 1 < statsI args n
    have : 1 ≤ statsI args n := h1
    omega
  · have hsucc : statsI args n - 1 + 1 = statsI args n := Nat.sub_add_cancel h1
    rw [hsucc]
    exact h3

/-- `stats_i` is one more than the bucket of the burst. -/
theorem statsI_eq {args : AppArgs} (h : args.Histogram) {b n : ℕ} (hn : n ≤ args.portBurstSize)
    (hb : InBucket args b n) : statsI args n = b + 1 := by
  have hpos : 0 < n := Nat.lt_of_le_of_lt (Nat.zero_le _) hb.1
  obtain ⟨h1, -, h3⟩ := statsI_spec h hpos hn
  have := h3.unique hb
  omega

/-! ## The writes of one burst -/

/-- Every burst the device can return has a bucket of the array. -/
theorem exists_inBucket {args : AppArgs} (h : args.Histogram) {n : ℕ} (hpos : 0 < n)
    (hn : n ≤ args.portBurstSize) :
    ∃ b, b < args.rgxStatsHistogramBucketCnt ∧ InBucket args b n := by
  obtain ⟨h1, h2, h3⟩ := statsI_spec h hpos hn
  exact ⟨_, by omega, h3⟩

/-- The writes of a burst that belongs to bucket `b`: the two burst counters go to `b`, the
three per-packet counters to `b + 1`. -/
theorem dequeueWrites_eq {args : AppArgs} (h : args.Histogram) {ticksPerUs : UInt64}
    {pkts : List Dequeued} {b : ℕ} (hn : pkts.length ≤ args.portBurstSize)
    (hb : InBucket args b pkts.length) :
    dequeueWrites args ticksPerUs pkts
      = [⟨b, .deqBurstCnt, 1⟩, ⟨b, .deqBurstPktCnt, UInt64.ofNat pkts.length⟩]
        ++ pkts.flatMap (packetWrites ticksPerUs (b + 1)) := by
  have hpos : 0 < pkts.length := Nat.lt_of_le_of_lt (Nat.zero_le _) hb.1
  have hle := (statsI_spec h hpos hn).2.1
  simp only [dequeueWrites, statsI_eq h hn hb] at hle ⊢
  rw [if_pos hle, Nat.add_sub_cancel]

/-- A burst that belongs to bucket `b` performs its per-packet writes at `b + 1`. -/
theorem exists_write_succ {args : AppArgs} (h : args.Histogram) {ticksPerUs : UInt64}
    {pkts : List Dequeued} {b : ℕ} (hn : pkts.length ≤ args.portBurstSize)
    (hb : InBucket args b pkts.length) :
    ∃ w ∈ dequeueWrites args ticksPerUs pkts, w.bucket = b + 1 := by
  rw [dequeueWrites_eq h hn hb]
  cases pkts with
  | nil => exact absurd hb.1 (Nat.not_lt_zero _)
  | cons p ps =>
    exact ⟨⟨b + 1, .matchesTotal, p.nbMatches⟩, by simp [packetWrites], rfl⟩

/-- What a dequeued burst writes is in its bucket or the next one. -/
theorem mem_dequeueWrites {args : AppArgs} (h : args.Histogram) {ticksPerUs : UInt64}
    {pkts : List Dequeued} {b : ℕ} (hn : pkts.length ≤ args.portBurstSize)
    (hb : InBucket args b pkts.length) {w : StatWrite}
    (hw : w ∈ dequeueWrites args ticksPerUs pkts) : w.bucket = b ∨ w.bucket = b + 1 := by
  rw [dequeueWrites_eq h hn hb] at hw
  rcases List.mem_append.mp hw with hw | hw
  · left
    rcases List.mem_pair.mp hw with rfl | rfl <;> rfl
  · right
    obtain ⟨p, -, hp⟩ := List.mem_flatMap.mp hw
    simp only [packetWrites, List.mem_cons, List.not_mem_nil, or_false] at hp
    rcases hp with rfl | rfl | rfl <;> rfl

/-! ## Whole runs -/

/-- What a burst should credit to counter `f` of bucket `b`: nothing, unless `b` is its
bucket. -/
def burstShare (args : AppArgs) (ticksPerUs : UInt64) (b : ℕ) (f : StatField)
    (pkts : List Dequeued) : UInt64 :=
  if InBucket args b pkts.length then
    match f with
    | .enqBurstCnt => 0
    | .enqBurstPktsCnt => 0
    | .deqBurstCnt => 1
    | .deqBurstPktCnt => UInt64.ofNat pkts.length
    | .deqRTTTotalUs => (pkts.map fun p => p.rttCycles / ticksPerUs).sum
    | .deqRTTTotalCycles => (pkts.map Dequeued.rttCycles).sum
    | .matchesTotal => (pkts.map Dequeued.nbMatches).sum
  else 0

/-- Dequeue statistics are attributed to one valid bucket: every write of every burst is
inside the array and to the bucket whose range contains the burst, and so every counter of
every bucket is the total of the bursts counted there. -/
structure DequeueStatsAttributed (args : AppArgs) (ticksPerUs : UInt64)
    (bursts : List (List Dequeued)) : Prop where
  one_bucket : ∀ pkts ∈ bursts, ∀ w ∈ dequeueWrites args ticksPerUs pkts,
    w.bucket < args.rgxStatsHistogramBucketCnt ∧ InBucket args w.bucket pkts.length
  totals : ∀ (b : ℕ) (hb : b < args.rgxStatsHistogramBucketCnt) (f : StatField),
    ((dequeueRun args ticksPerUs bursts).buckets[b]).get f
      = (bursts.map (burstShare args ticksPerUs b f)).sum

/-- **Attribution fails as soon as anything is dequeued**: the matches and round-trip times
of a burst never go to the bucket that counts the burst. -/
theorem dequeueStats_attributed_iff {args : AppArgs} (h : args.Histogram) (ticksPerUs : UInt64)
    (bursts : List (List Dequeued))
    (hbursts : ∀ pkts ∈ bursts, 1 ≤ pkts.length ∧ pkts.length ≤ args.portBurstSize) :
    DequeueStatsAttributed args ticksPerUs bursts ↔ bursts = [] := by
  constructor
  · intro hattr
    rcases bursts with _ | ⟨pkts, rest⟩
    · rfl
    · obtain ⟨hpos, hn⟩ := hbursts pkts List.mem_cons_self
      obtain ⟨b, -, hb⟩ := exists_inBucket h hpos hn
      obtain ⟨w, hw, hwb⟩ := exists_write_succ h hn hb
      have hcontra := ((hattr.one_bucket pkts List.mem_cons_self w hw).2).unique hb
      omega
  · rintro rfl
    refine ⟨fun _ hp => absurd hp List.not_mem_nil, fun b hb f => ?_⟩
    exact StatsArray.init_get hb f

/-- One packet dequeued under the default histogram: counted in bucket 0, its match credited
to bucket 1. -/
theorem dequeueStats_attributed_onePacket :
    ¬ DequeueStatsAttributed (gAppArgs 0) 1 [[⟨1, 100⟩]] := by
  intro h
  have hw := h.one_bucket _ List.mem_cons_self ⟨1, .matchesTotal, 1⟩ (by decide)
  exact absurd hw.2 (by decide)

/-- The attribution theorem at that run. -/
theorem dequeueStats_attributed_iff_onePacket :
    DequeueStatsAttributed (gAppArgs 0) 1 [[⟨1, 100⟩]] ↔ [[(⟨1, 100⟩ : Dequeued)]] = [] :=
  dequeueStats_attributed_iff ⟨by decide, by decide⟩ 1 _ (by decide)

/-- The array is overrun exactly when a burst belongs to its last bucket. -/
theorem dequeueRun_inBounds_iff {args : AppArgs} (h : args.Histogram) (ticksPerUs : UInt64)
    (bursts : List (List Dequeued))
    (hbursts : ∀ pkts ∈ bursts, 1 ≤ pkts.length ∧ pkts.length ≤ args.portBurstSize) :
    (dequeueRun args ticksPerUs bursts).wild = 0 ↔
      ∀ pkts ∈ bursts,
        pkts.length + args.rgxStatsHistogramBucketSize ≤ args.portBurstSize := by
  -- no write of any burst misses the array
  have hwild : (dequeueRun args ticksPerUs bursts).wild = 0 ↔
      ∀ pkts ∈ bursts, ∀ w ∈ dequeueWrites args ticksPerUs pkts,
        w.bucket < args.rgxStatsHistogramBucketCnt := by
    rw [dequeueRun, StatsArray.writes_wild, StatsArray.init, Nat.zero_add, List.countP_eq_zero]
    simp only [decide_eq_true_eq, Nat.not_le, List.mem_flatMap, forall_exists_index, and_imp]
    exact ⟨fun H p hp w hw => H w p hp hw, fun H w p hp hw => H p hp w hw⟩
  rw [hwild]
  refine forall₂_congr fun pkts hpkts => ?_
  obtain ⟨hpos, hn⟩ := hbursts pkts hpkts
  obtain ⟨b, hbcnt, hb⟩ := exists_inBucket h hpos hn
  have hcnt := h.cnt_mul_size
  -- bucket `b + 1` exists iff the burst leaves room for one more bucket size
  have hroom : b + 1 < args.rgxStatsHistogramBucketCnt ↔
      pkts.length + args.rgxStatsHistogramBucketSize ≤ args.portBurstSize := by
    have hlo := hb.1
    have hhi := hb.2
    rw [← hcnt]
    constructor
    · intro hlt
      have := Nat.mul_le_mul_right args.rgxStatsHistogramBucketSize (Nat.succ_le_of_lt hlt)
      simp only [Nat.succ_eq_add_one, Nat.add_mul, Nat.one_mul] at this hhi ⊢
      omega
    · intro hle
      by_contra hge
      have hlast : args.rgxStatsHistogramBucketCnt = b + 1 := by omega
      rw [hlast, Nat.add_mul, Nat.one_mul] at hle
      omega
  rw [← hroom]
  constructor
  · intro H
    obtain ⟨w, hw, hwb⟩ := exists_write_succ h hn hb
    rw [← hwb]
    exact H w hw
  · intro hlt w hw
    rcases mem_dequeueWrites h hn hb hw with hwb | hwb <;> omega

/-! ## What a run leaves in a bucket -/

theorem credited_flatMap {X : Type} (b : ℕ) (f : StatField) (xs : List X)
    (ws : X → List StatWrite) :
    credited b f (xs.flatMap ws) = (xs.map fun x => credited b f (ws x)).sum := by
  induction xs with
  | nil => rfl
  | cons x xs ih => rw [List.flatMap_cons, credited_append, ih, List.map_cons, List.sum_cons]

/-- The per-packet writes of a burst credit all its cycles to one bucket. -/
theorem credited_packetWrites_cycles (ticksPerUs : UInt64) (b i : ℕ) (pkts : List Dequeued) :
    credited b .deqRTTTotalCycles (pkts.flatMap (packetWrites ticksPerUs i))
      = if i = b then (pkts.map Dequeued.rttCycles).sum else 0 := by
  rw [credited_flatMap]
  by_cases hib : i = b <;> simp [credited, packetWrites, hib]

theorem credited_packetWrites_pktCnt (ticksPerUs : UInt64) (b i : ℕ) (pkts : List Dequeued) :
    credited b .deqBurstPktCnt (pkts.flatMap (packetWrites ticksPerUs i)) = 0 := by
  rw [credited_flatMap]
  simp [credited, packetWrites]

/-- The packets of the bursts that belong to bucket `b`. -/
def dequeuedIn (args : AppArgs) (b : ℕ) (bursts : List (List Dequeued)) : List Dequeued :=
  (bursts.filter fun pkts => InBucket args b pkts.length).flatten

/-- The packets of the bursts that belong to the bucket before `b`. -/
def dequeuedBefore (args : AppArgs) : ℕ → List (List Dequeued) → List Dequeued
  | 0, _ => []
  | b + 1, bursts => dequeuedIn args b bursts

theorem dequeuedIn_append (args : AppArgs) (b : ℕ) (xs ys : List (List Dequeued)) :
    dequeuedIn args b (xs ++ ys) = dequeuedIn args b xs ++ dequeuedIn args b ys := by
  simp only [dequeuedIn, List.filter_append, List.flatten_append]

theorem dequeuedBefore_append (args : AppArgs) (b : ℕ) (xs ys : List (List Dequeued)) :
    dequeuedBefore args b (xs ++ ys) = dequeuedBefore args b xs ++ dequeuedBefore args b ys := by
  cases b with
  | zero => rfl
  | succ b => exact dequeuedIn_append args b xs ys

/-- A burst is in its own bucket and in no other. -/
theorem dequeuedIn_singleton {args : AppArgs} {b c : ℕ} {pkts : List Dequeued}
    (hc : InBucket args c pkts.length) :
    dequeuedIn args b [pkts] = if c = b then pkts else [] := by
  by_cases hcb : c = b
  · subst hcb
    simp [dequeuedIn, hc]
  · have hb : ¬ InBucket args b pkts.length := fun hb => hcb (hc.unique hb)
    simp [dequeuedIn, hb, hcb]

variable {args : AppArgs} (h : args.Histogram) (ticksPerUs : UInt64) {bursts : List (List Dequeued)}
  (hbursts : ∀ pkts ∈ bursts, 1 ≤ pkts.length ∧ pkts.length ≤ args.portBurstSize)
include h hbursts

/-- A bucket counts the packets of its own bursts. -/
theorem dequeueRun_pktCnt {b : ℕ} (hb : b < args.rgxStatsHistogramBucketCnt) :
    ((dequeueRun args ticksPerUs bursts).buckets[b]).get .deqBurstPktCnt
      = UInt64.ofNat (dequeuedIn args b bursts).length := by
  rw [dequeueRun, StatsArray.writes_get _ _ hb, StatsArray.init_get hb, zero_add]
  induction bursts with
  | nil => rfl
  | cons pkts rest ih =>
    obtain ⟨hpos, hn⟩ := hbursts pkts List.mem_cons_self
    obtain ⟨c, -, hc⟩ := exists_inBucket h hpos hn
    rw [List.flatMap_cons, credited_append,
      ih fun p hp => hbursts p (List.mem_cons_of_mem _ hp), dequeueWrites_eq h hn hc,
      credited_append, credited_packetWrites_pktCnt, add_zero,
      show pkts :: rest = [pkts] ++ rest from rfl, dequeuedIn_append, dequeuedIn_singleton hc,
      List.length_append, UInt64.ofNat_add]
    by_cases hcb : c = b <;> simp [credited, hcb]

/-- A bucket accumulates the cycles of the packets of the bucket before it. -/
theorem dequeueRun_cycles {b : ℕ} (hb : b < args.rgxStatsHistogramBucketCnt) :
    ((dequeueRun args ticksPerUs bursts).buckets[b]).get .deqRTTTotalCycles
      = ((dequeuedBefore args b bursts).map Dequeued.rttCycles).sum := by
  rw [dequeueRun, StatsArray.writes_get _ _ hb, StatsArray.init_get hb, zero_add]
  induction bursts with
  | nil => cases b <;> rfl
  | cons pkts rest ih =>
    obtain ⟨hpos, hn⟩ := hbursts pkts List.mem_cons_self
    obtain ⟨c, -, hc⟩ := exists_inBucket h hpos hn
    rw [List.flatMap_cons, credited_append,
      ih fun p hp => hbursts p (List.mem_cons_of_mem _ hp), dequeueWrites_eq h hn hc,
      credited_append, credited_packetWrites_cycles,
      show pkts :: rest = [pkts] ++ rest from rfl, dequeuedBefore_append, List.map_append,
      List.sum_append]
    cases b with
    | zero => simp [credited, dequeuedBefore]
    | succ b =>
      rw [show dequeuedBefore args (b + 1) [pkts] = dequeuedIn args b [pkts] from rfl,
        dequeuedIn_singleton hc]
      by_cases hcb : c = b <;> simp [credited, hcb]

/-- Every dequeued packet is in one bucket: a sum over the packets of a run is a sum over its
buckets. -/
theorem sum_dequeuedIn (g : Dequeued → ℕ) :
    ∑ b ∈ range args.rgxStatsHistogramBucketCnt, ((dequeuedIn args b bursts).map g).sum
      = (bursts.flatten.map g).sum := by
  induction bursts with
  | nil => simp [dequeuedIn]
  | cons pkts rest ih =>
    obtain ⟨hpos, hn⟩ := hbursts pkts List.mem_cons_self
    obtain ⟨c, hc, hpkts⟩ := exists_inBucket h hpos hn
    have hone : ∑ b ∈ range args.rgxStatsHistogramBucketCnt,
        ((dequeuedIn args b [pkts]).map g).sum = (pkts.map g).sum := by
      rw [sum_eq_single c]
      · rw [dequeuedIn_singleton hpkts, if_pos rfl]
      · intro b _ hbc
        rw [dequeuedIn_singleton hpkts, if_neg hbc.symm, List.map_nil, List.sum_nil]
      · exact fun hc' => absurd (mem_range.mpr hc) hc'
    rw [List.flatten_cons, List.map_append, List.sum_append,
      ← ih fun p hp => hbursts p (List.mem_cons_of_mem _ hp), ← hone, ← sum_add_distrib]
    simp only [show pkts :: rest = [pkts] ++ rest from rfl, dequeuedIn_append, List.map_append,
      List.sum_append]

end RegexTest
end PamoRxpBench
