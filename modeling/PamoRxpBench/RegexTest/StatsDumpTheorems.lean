import PamoRxpBench.RegexTest.StatsDump
import PamoRxpBench.Library.Counters

/-!
# What the final report adds up

Every aggregated counter is a sum over the workers that have the block it lives in, modulo `2^64`
and in any order (`overWorkers_toNat`, `aggregate_regex`, `aggregate_perm`). One of the thirteen is
the sum of the wrong field: the aggregated `enq_burst_cnt` adds up the workers'
`enq_burst_pkts_cnt`. So the report is the field-wise sum exactly when the two agree in every bucket
and the number of buckets is positive and fits in the 16 bits of `rgx_bkt_cnt`
(`appStatsDump_fieldwise_iff`).
-/

namespace PamoRxpBench
namespace RegexTest

open Counters

/-- The blocks `get` of the workers that have one. -/
def blocks {n : ℕ} {R : Type} (get : AppStats n → Option R)
    (svstats : List (Option (AppStats n))) : List R :=
  svstats.filterMap fun entry => entry.bind get

/-- A loop over the workers only sees the blocks that are there. -/
theorem overWorkers_eq {n : ℕ} {S R : Type} (get : AppStats n → Option R) (add : S → R → S)
    (zero : S) (svstats : List (Option (AppStats n))) :
    overWorkers get add zero svstats = (blocks get svstats).foldl add zero := by
  unfold overWorkers blocks
  induction svstats generalizing zero with
  | nil => rfl
  | cons entry rest ih =>
    rw [List.foldl_cons, ih]
    rcases entry with _ | stats
    · rfl
    · cases hget : get stats <;> simp [hget]

/-! ## Sums -/

/-- A counter `c` to which every block adds its `inc` ends as the sum of the `inc`s. -/
theorem overWorkers_counter {n : ℕ} {S R : Type} (get : AppStats n → Option R) (add : S → R → S)
    (zero : S) (c : S → UInt64) (inc : R → UInt64) (hadd : ∀ s r, c (add s r) = c s + inc r)
    (hzero : c zero = 0) (svstats : List (Option (AppStats n))) :
    c (overWorkers get add zero svstats) = ((blocks get svstats).map inc).sum := by
  rw [overWorkers_eq, foldl_counter c add inc hadd, hzero, zero_add]

/-- A counter to which every block adds its own ends as their sum modulo `2^64`. -/
theorem overWorkers_toNat {n : ℕ} {R : Type} (get : AppStats n → Option R) (add : R → R → R)
    (zero : R) (c : R → UInt64) (hadd : ∀ s r, c (add s r) = c s + c r)
    (hzero : c zero = 0) (svstats : List (Option (AppStats n))) :
    (c (overWorkers get add zero svstats)).toNat
      = ((blocks get svstats).map fun r => (c r).toNat).sum % 2 ^ 64 := by
  rw [overWorkers_counter get add zero c c hadd hzero, toNat_sum, List.map_map]
  rfl

/-- The counter of a worker that the aggregated counter `f` adds up. -/
def addedField : StatField → StatField
  | .enqBurstCnt => .enqBurstPktsCnt
  | f => f

theorem addedField_of_ne {f : StatField} (h : f ≠ .enqBurstCnt) : addedField f = f := by
  cases f <;> first | rfl | exact absurd rfl h

theorem get_addBucket (size j : ℕ) (s r : RegexStatsBurst) (f : StatField) :
    (addBucket size j s r).get f = s.get f + r.get (addedField f) := by
  cases f <;> rfl

variable {m n : ℕ}

/-- The sum of counter `f` of bucket `j` over the workers with regex statistics. -/
def regexTotal (svstats : List (Option (AppStats n))) (j : ℕ) (hj : j < n) (f : StatField) : ℕ :=
  ((blocks AppStats.regexStats svstats).map fun r => (r[j].get f).toNat).sum

section Aggregate

variable (hmn : m ≤ n) (size : ℕ) (svstats : List (Option (AppStats n)))

/-- Every aggregated regex counter is the sum of the field it adds up. -/
theorem aggregate_regex_get (j : ℕ) (hj : j < m) (hjn : j < n) (f : StatField) :
    ((aggregate hmn size svstats).regexStats[j]).get f
      = ((blocks AppStats.regexStats svstats).map fun r => r[j].get (addedField f)).sum := by
  refine overWorkers_counter AppStats.regexStats (addRegexStats hmn size) (Vector.replicate m .zero)
    (fun s => s[j].get f) (fun r => r[j].get (addedField f)) ?_ ?_ svstats
  · intro s r
    simp [addRegexStats, get_addBucket]
  · simp

theorem aggregate_regex (j : ℕ) (hj : j < m) (hjn : j < n) (f : StatField) :
    (((aggregate hmn size svstats).regexStats[j]).get f).toNat
      = regexTotal svstats j hjn (addedField f) % 2 ^ 64 := by
  rw [aggregate_regex_get hmn size svstats j hj hjn, toNat_sum, List.map_map]
  rfl

/-- As soon as one worker has regex statistics, every bucket carries its burst size. -/
theorem aggregate_burstSize (j : ℕ) (hj : j < m) (hsome : blocks AppStats.regexStats svstats ≠ []) :
    ((aggregate hmn size svstats).regexStats[j]).burstSize = UInt32.ofNat ((j + 1) * size) := by
  rw [aggregate, overWorkers_eq]
  obtain ⟨init, last, hlast⟩ := List.eq_nil_or_concat' (blocks AppStats.regexStats svstats)
    |>.resolve_left hsome
  rw [hlast, List.foldl_append, List.foldl_cons, List.foldl_nil]
  simp [addRegexStats, addBucket]

end Aggregate

/-- The sum of an `hs_stats` counter over the workers that have it. -/
def hsTotal (svstats : List (Option (AppStats n))) (c : HsStats → UInt64) : ℕ :=
  ((blocks AppStats.hsStats svstats).map fun r => (c r).toNat).sum

/-- The sum of an `lcore_stats` counter over the workers that have it. -/
def lcoreTotal (svstats : List (Option (AppStats n))) (c : LcoreStats → UInt64) : ℕ :=
  ((blocks AppStats.lcoreStats svstats).map fun r => (c r).toNat).sum

/-! ## The order of the workers -/

theorem addBucket_right_comm (size j : ℕ) (s a b : RegexStatsBurst) :
    addBucket size j (addBucket size j s a) b = addBucket size j (addBucket size j s b) a := by
  simp only [addBucket, RegexStatsBurst.mk.injEq, true_and]
  exact ⟨add_right_comm _ _ _, add_right_comm _ _ _, add_right_comm _ _ _, add_right_comm _ _ _,
    add_right_comm _ _ _, add_right_comm _ _ _, add_right_comm _ _ _⟩

instance addRegexStats_rightComm (hmn : m ≤ n) (size : ℕ) :
    RightCommutative (addRegexStats hmn size) where
  right_comm s a b := by
    ext j hj : 1
    simp only [addRegexStats, Vector.getElem_ofFn, Fin.getElem_fin]
    exact addBucket_right_comm _ _ _ _ _

instance addHsStats_rightComm : RightCommutative addHsStats where
  right_comm s a b := by
    simp only [addHsStats, HsStats.mk.injEq]
    exact ⟨add_right_comm _ _ _, add_right_comm _ _ _, add_right_comm _ _ _,
      add_right_comm _ _ _⟩

instance addLcoreStats_rightComm : RightCommutative addLcoreStats where
  right_comm s a b := by
    simp only [addLcoreStats, LcoreStats.mk.injEq]
    exact ⟨add_right_comm _ _ _, add_right_comm _ _ _⟩

/-- A loop over the workers whose additions commute does not depend on their order. -/
theorem overWorkers_perm {S R : Type} (get : AppStats n → Option R) (add : S → R → S)
    [RightCommutative add] (zero : S) {svstats svstats' : List (Option (AppStats n))}
    (h : svstats.Perm svstats') :
    overWorkers get add zero svstats = overWorkers get add zero svstats' := by
  rw [overWorkers_eq, overWorkers_eq]
  exact (h.filterMap _).foldl_eq zero

theorem aggregate_perm (hmn : m ≤ n) (size : ℕ) {svstats svstats' : List (Option (AppStats n))}
    (h : svstats.Perm svstats') : aggregate hmn size svstats = aggregate hmn size svstats' := by
  simp only [aggregate, overWorkers_perm _ _ _ h]

variable {args : AppArgs}

theorem appStatsDump_perm
    {svstats svstats' : List (Option (AppStats args.rgxStatsHistogramBucketCnt))}
    (h : svstats.Perm svstats') : appStatsDump args svstats = appStatsDump args svstats' := by
  rw [appStatsDump, appStatsDump, aggregate_perm _ _ h]

theorem statsReport_perm
    {svstats svstats' : List (Option (AppStats args.rgxStatsHistogramBucketCnt))}
    (h : svstats.Perm svstats') : statsReport args svstats = statsReport args svstats' := by
  rw [statsReport, statsReport, appStatsDump_perm h]

/-! ## When there is a report -/

/-- The histogram of the report: all buckets, each with the sums over the workers. -/
def totalHistogram (args : AppArgs)
    (svstats : List (Option (AppStats args.rgxStatsHistogramBucketCnt))) :
    Vector RegexStatsBurst args.rgxStatsHistogramBucketCnt :=
  (aggregate le_rfl args.rgxStatsHistogramBucketSize svstats).regexStats

/-- The report of the workers. -/
def totalPrinted (args : AppArgs)
    (svstats : List (Option (AppStats args.rgxStatsHistogramBucketCnt))) : Printed where
  buckets := if args.rgxEnabled then (totalHistogram args svstats).toList else []
  hsStats := overWorkers AppStats.hsStats addHsStats ⟨0, 0, 0, 0⟩ svstats
  lcoreStats := overWorkers AppStats.lcoreStats addLcoreStats ⟨0, 0⟩ svstats

/-- A loop over all places of a vector. -/
theorem mapM_getElem?_range {α : Type} {k : ℕ} (s : Vector α m) :
    (List.range k).mapM (fun i => s[i]?) = if k ≤ m then some (s.toList.take k) else none := by
  induction k with
  | zero => simp
  | succ k ih =>
    rw [List.range_succ, List.mapM_append, ih]
    by_cases hk : k + 1 ≤ m
    · rw [if_pos (by omega), if_pos hk]
      have hget : s[k]? = some s[k] := Vector.getElem?_eq_getElem hk
      simp [hget, List.take_add_one]
    · rw [if_neg hk]
      by_cases hk' : k ≤ m
      · have hget : s[k]? = none := Vector.getElem?_eq_none (by omega)
        simp [hk', hget]
      · simp [hk']

/-- An array of as many buckets as the histogram has is printed as it is. -/
theorem printedBuckets_self (henabled : args.rgxEnabled = true)
    (s : Vector RegexStatsBurst args.rgxStatsHistogramBucketCnt) :
    printedBuckets args s = some s.toList := by
  rw [printedBuckets, if_pos henabled, mapM_getElem?_range, if_pos le_rfl,
    List.take_of_length_le s.length_toList.le]

/-- **The report, exactly.** There is one unless `rgx_bkt_cnt` is zero, or is cut while the buckets
are printed; and then it is the one of the workers. -/
theorem statsReport_eq (svstats : List (Option (AppStats args.rgxStatsHistogramBucketCnt))) :
    statsReport args svstats = if args.Prints then some (totalPrinted args svstats) else none := by
  unfold statsReport appStatsDump
  by_cases hzero : args.rgxBktCnt = 0
  · rw [if_pos hzero, if_neg fun h => h.1 hzero]
    rfl
  rw [if_neg hzero, Option.bind_some]
  cases henabled : args.rgxEnabled with
  | false =>
    have hdisabled : ¬ args.rgxEnabled = true := by rw [henabled]; decide
    rw [printedBuckets, if_neg hdisabled, if_pos ⟨hzero, fun h => absurd h hdisabled⟩, totalPrinted,
      if_neg hdisabled]
    rfl
  | true =>
    by_cases hlt : args.rgxStatsHistogramBucketCnt < 2 ^ 16
    · -- the array has all buckets
      have hsame : args.rgxBktCnt = args.rgxStatsHistogramBucketCnt := Nat.mod_eq_of_lt hlt
      have hall : ∀ {m : ℕ} (hmn : m ≤ args.rgxStatsHistogramBucketCnt),
          m = args.rgxStatsHistogramBucketCnt →
          printedBuckets args (aggregate hmn args.rgxStatsHistogramBucketSize svstats).regexStats
            = some (totalHistogram args svstats).toList := by
        intro m hmn heq
        subst heq
        exact printedBuckets_self henabled _
      rw [hall _ hsame, if_pos ⟨hzero, fun _ => hlt⟩, totalPrinted, if_pos henabled]
      rfl
    · have hcut : ¬ args.rgxStatsHistogramBucketCnt ≤ args.rgxBktCnt := by
        have hmod : args.rgxBktCnt < 2 ^ 16 := Nat.mod_lt _ (by decide)
        omega
      rw [printedBuckets, if_pos henabled, mapM_getElem?_range, if_neg hcut,
        if_neg fun h => hlt (h.2 henabled)]
      rfl

/-! ## Field-wise sums -/

/-- Every aggregated counter is the sum, modulo `2^64`, of that same field over the workers that
have it. -/
structure Aggregated.FieldwiseSums (agg : Aggregated m) (svstats : List (Option (AppStats n))) :
    Prop where
  regex : ∀ (j : ℕ) (hj : j < n) (f : StatField), ∃ s, agg.regexStats[j]? = some s ∧
    (s.get f).toNat = regexTotal svstats j hj f % 2 ^ 64
  totalScans : agg.hsStats.totalScans.toNat = hsTotal svstats HsStats.totalScans % 2 ^ 64
  totalScansUs : agg.hsStats.totalScansUs.toNat = hsTotal svstats HsStats.totalScansUs % 2 ^ 64
  totalScansCycles :
    agg.hsStats.totalScansCycles.toNat = hsTotal svstats HsStats.totalScansCycles % 2 ^ 64
  totalMatches : agg.hsStats.totalMatches.toNat = hsTotal svstats HsStats.totalMatches % 2 ^ 64
  usefulCycles :
    agg.lcoreStats.usefulCycles.toNat = lcoreTotal svstats LcoreStats.usefulCycles % 2 ^ 64
  wastedCycles :
    agg.lcoreStats.wastedCycles.toNat = lcoreTotal svstats LcoreStats.wastedCycles % 2 ^ 64

/-- The statistics are aggregated, in every bucket of the histogram, into the field-wise sums, in
whatever order the workers come. -/
def FieldwiseSums (args : AppArgs)
    (svstats : List (Option (AppStats args.rgxStatsHistogramBucketCnt))) : Prop :=
  ∃ agg, appStatsDump args svstats = some agg ∧ agg.FieldwiseSums svstats ∧
    ∀ svstats', svstats.Perm svstats' → appStatsDump args svstats' = some agg

/-- **The report is the field-wise sum exactly when bursts and packets enqueued agree** and the
histogram has at least one bucket and less than `2^16`: in every bucket, the workers'
`enq_burst_cnt` and `enq_burst_pkts_cnt` have the same total modulo `2^64`. -/
theorem appStatsDump_fieldwise_iff (args : AppArgs)
    (svstats : List (Option (AppStats args.rgxStatsHistogramBucketCnt))) :
    FieldwiseSums args svstats ↔
      (0 < args.rgxStatsHistogramBucketCnt ∧ args.rgxStatsHistogramBucketCnt < 2 ^ 16) ∧
      ∀ (j : ℕ) (hj : j < args.rgxStatsHistogramBucketCnt),
        regexTotal svstats j hj .enqBurstPktsCnt % 2 ^ 64
          = regexTotal svstats j hj .enqBurstCnt % 2 ^ 64 := by
  constructor
  · intro h
    obtain ⟨agg, hagg, hsums, -⟩ := h
    unfold appStatsDump at hagg
    by_cases hzero : args.rgxBktCnt = 0
    · rw [if_pos hzero] at hagg
      cases hagg
    rw [if_neg hzero] at hagg
    obtain rfl := Option.some.inj hagg
    have hpos : 0 < args.rgxStatsHistogramBucketCnt := by
      have hle := args.rgxBktCnt_le
      omega
    -- the last bucket has a place in the array
    have hlt : args.rgxStatsHistogramBucketCnt < 2 ^ 16 := by
      obtain ⟨s, hs, -⟩ := hsums.regex (args.rgxStatsHistogramBucketCnt - 1) (by omega) .enqBurstCnt
      obtain ⟨hplace, -⟩ := Vector.getElem?_eq_some_iff.mp hs
      have hmod : args.rgxBktCnt < 2 ^ 16 := Nat.mod_lt _ (by decide)
      omega
    refine ⟨⟨hpos, hlt⟩, fun j hj => ?_⟩
    obtain ⟨s, hs, hsum⟩ := hsums.regex j hj .enqBurstCnt
    obtain ⟨hplace, rfl⟩ := Vector.getElem?_eq_some_iff.mp hs
    rw [← hsum, aggregate_regex _ _ _ j hplace hj]
    rfl
  · intro h
    obtain ⟨⟨hpos, hlt⟩, hagree⟩ := h
    have hsame : args.rgxBktCnt = args.rgxStatsHistogramBucketCnt := Nat.mod_eq_of_lt hlt
    have hagg : appStatsDump args svstats =
        some (aggregate args.rgxBktCnt_le args.rgxStatsHistogramBucketSize svstats) :=
      if_neg (by omega)
    refine ⟨_, hagg, ⟨fun j hj f => ?_, ?_, ?_, ?_, ?_, ?_, ?_⟩,
      fun _ hp => (appStatsDump_perm hp).symm.trans hagg⟩
    · have hplace : j < args.rgxBktCnt := hsame ▸ hj
      refine ⟨_, Vector.getElem?_eq_getElem hplace, ?_⟩
      rw [aggregate_regex _ _ _ j hplace hj]
      cases f
      case enqBurstCnt => exact hagree j hj
      all_goals rfl
    · exact overWorkers_toNat _ _ _ HsStats.totalScans (fun _ _ => rfl) rfl svstats
    · exact overWorkers_toNat _ _ _ HsStats.totalScansUs (fun _ _ => rfl) rfl svstats
    · exact overWorkers_toNat _ _ _ HsStats.totalScansCycles (fun _ _ => rfl) rfl svstats
    · exact overWorkers_toNat _ _ _ HsStats.totalMatches (fun _ _ => rfl) rfl svstats
    · exact overWorkers_toNat _ _ _ LcoreStats.usefulCycles (fun _ _ => rfl) rfl svstats
    · exact overWorkers_toNat _ _ _ LcoreStats.wastedCycles (fun _ _ => rfl) rfl svstats

/-- One worker that enqueued one burst of three packets is reported to have enqueued three
bursts. -/
theorem appStatsDump_fieldwise_oneBurst :
    ¬ FieldwiseSums ⟨true, false, true, 0, 4, 1, 4, 0⟩
      [some ⟨some #v[⟨0, 1, 3, 0, 0, 0, 0, 0⟩], none, none⟩] := by
  intro h
  obtain ⟨agg, hagg, hsums, -⟩ := h
  obtain rfl := Option.some.inj hagg
  obtain ⟨s, hs, hsum⟩ := hsums.regex 0 (by decide) .enqBurstCnt
  obtain rfl := Option.some.inj hs
  exact absurd hsum (by decide)

end RegexTest
end PamoRxpBench
