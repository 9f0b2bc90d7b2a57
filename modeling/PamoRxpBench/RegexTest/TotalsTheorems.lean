import PamoRxpBench.RegexTest.PacketTheorems
import PamoRxpBench.RegexTest.StatsDumpTheorems

/-!
# What the Hyperscan and lcore statistics of a report count

The counters that a worker returns are those of its scans and of its iterations, over its whole
run; added up over the workers they are those of all scans and all iterations
(`appStatsDump_counts`). Both are additive (`HsStats.ofScans_append`, `LcoreStats.ofTurns_append`),
so the loop over a burst, the loop of a worker and the loops of the report are one argument.
-/

namespace PamoRxpBench
namespace RegexTest

open Runs

variable {M : Type} [DecidableEq M] {args : AppArgs}

/-! ## Statistics of lists -/

/-- The statistics of a list of scans. -/
def HsStats.ofScans (ticksPerUs : UInt64) (rs : List Scan) : HsStats where
  totalScans := UInt64.ofNat (rs.countP Scan.success)
  totalScansUs := ((rs.filter Scan.success).map fun r => (r.t2 - r.t1) / ticksPerUs).sum
  totalScansCycles := ((rs.filter Scan.success).map fun r => r.t2 - r.t1).sum
  totalMatches := UInt64.ofNat (rs.map Scan.matchCount).sum

/-- The cycles of a list of iterations, apart for those that had nothing to do. -/
def LcoreStats.ofTurns (engine : Engine) (ts : List (Turn M)) : LcoreStats where
  wastedCycles := ((ts.filter (loopWasted engine)).map fun t => t.loopEndTs - t.loopStartTs).sum
  usefulCycles :=
    ((ts.filter fun t => !loopWasted engine t).map fun t => t.loopEndTs - t.loopStartTs).sum

theorem HsStats.ofScans_append (ticksPerUs : UInt64) (rs rs' : List Scan) :
    HsStats.ofScans ticksPerUs (rs ++ rs') =
      addHsStats (HsStats.ofScans ticksPerUs rs) (HsStats.ofScans ticksPerUs rs') := by
  simp only [HsStats.ofScans, addHsStats, List.countP_append, List.filter_append, List.map_append,
    List.sum_append, UInt64.ofNat_add]

omit [DecidableEq M] in
theorem LcoreStats.ofTurns_append (engine : Engine) (ts ts' : List (Turn M)) :
    LcoreStats.ofTurns engine (ts ++ ts') =
      addLcoreStats (LcoreStats.ofTurns engine ts) (LcoreStats.ofTurns engine ts') := by
  simp only [LcoreStats.ofTurns, addLcoreStats, List.filter_append, List.map_append,
    List.sum_append]

theorem addHsStats_assoc (a b c : HsStats) :
    addHsStats (addHsStats a b) c = addHsStats a (addHsStats b c) := by
  simp only [addHsStats, add_assoc]

theorem addHsStats_zero (a : HsStats) : addHsStats a ⟨0, 0, 0, 0⟩ = a := by
  simp only [addHsStats, add_zero]

/-! ## One worker -/

/-- One scan. -/
theorem hsScanPkt_eq {ticksPerUs : UInt64} {s s' : HsStats} {r : Scan}
    (h : hsScanPkt ticksPerUs s r = some s') :
    s' = addHsStats s (HsStats.ofScans ticksPerUs [r]) := by
  unfold hsScanPkt at h
  obtain ⟨u, hu, rfl⟩ := Option.map_eq_some_iff.mp h
  have hcounted : u = addHsStats s { HsStats.ofScans ticksPerUs [r] with totalMatches := 0 } := by
    by_cases hsuccess : r.success = true
    · rw [if_pos hsuccess] at hu
      by_cases hticks : ticksPerUs = 0
      · rw [if_pos hticks] at hu
        cases hu
      · rw [if_neg hticks] at hu
        rw [← Option.some.inj hu]
        simp [HsStats.ofScans, addHsStats, hsuccess]
    · rw [if_neg hsuccess] at hu
      rw [← Option.some.inj hu]
      simp [HsStats.ofScans, addHsStats, hsuccess]
  rw [hcounted]
  by_cases hmatch : r.matchCount > 0
  · rw [if_pos hmatch]
    simp [HsStats.ofScans, addHsStats]
  · have hzero : r.matchCount = 0 := by omega
    rw [if_neg hmatch]
    simp [HsStats.ofScans, addHsStats, hzero]

omit [DecidableEq M] in
/-- The scans of a burst. -/
theorem hsScanBurst_eq {ticksPerUs : UInt64} {s s' : HsStats} {rx : List (RxPkt M)}
    (h : hsScanBurst ticksPerUs s rx = some s') :
    s' = addHsStats s (HsStats.ofScans ticksPerUs (rx.map RxPkt.scan)) := by
  induction rx generalizing s with
  | nil =>
    rw [← Option.some.inj h]
    exact (addHsStats_zero s).symm
  | cons p ps ih =>
    obtain ⟨u, hu, hrest⟩ := Option.bind_eq_some_iff.mp h
    rw [ih hrest, hsScanPkt_eq hu, addHsStats_assoc, ← HsStats.ofScans_append]
    rfl

omit [DecidableEq M] in
/-- The cycles of one iteration, as those of a run of one. -/
theorem updateCyclesCounts_eq (engine : Engine) (t : Turn M) (s : LcoreStats) :
    updateCyclesCounts (loopWasted engine t) t.loopStartTs t.loopEndTs s =
      addLcoreStats s (LcoreStats.ofTurns engine [t]) := by
  unfold updateCyclesCounts
  by_cases hwasted : loopWasted engine t = true
  · rw [if_pos hwasted]
    simp [LcoreStats.ofTurns, addLcoreStats, hwasted]
  · rw [if_neg hwasted]
    simp [LcoreStats.ofTurns, addLcoreStats, hwasted]

/-- The scans of the turns: only Hyperscan scans in the loop. -/
def scansOf (engine : Engine) (ts : List (Turn M)) : List Scan :=
  if engine = .hyperscan then ts.flatMap fun t => t.rx.map RxPkt.scan else []

omit [DecidableEq M] in
theorem scansOf_append (engine : Engine) (ts ts' : List (Turn M)) :
    scansOf engine (ts ++ ts') = scansOf engine ts ++ scansOf engine ts' := by
  unfold scansOf
  split
  · rw [List.flatMap_append]
  · rfl

omit [DecidableEq M] in
/-- Without Hyperscan nothing is scanned. -/
theorem ofScans_scansOf_of_ne {engine : Engine} (h : engine ≠ .hyperscan) (ticksPerUs : UInt64)
    (ts : List (Turn M)) : HsStats.ofScans ticksPerUs (scansOf engine ts) = ⟨0, 0, 0, 0⟩ := by
  rw [scansOf, if_neg h]
  rfl

/-- Only the packet loop of Hyperscan counts scans. -/
theorem body_counts {ticksPerUs : UInt64} {engine : Engine} {w v : Worker args M} {t : Turn M}
    (h : w.body ticksPerUs engine t = some v) :
    v.hsStats = addHsStats w.hsStats (HsStats.ofScans ticksPerUs (scansOf engine [t])) ∧
      v.lcoreStats = w.lcoreStats := by
  cases engine with
  | none =>
    rw [← Option.some.inj h, ofScans_scansOf_of_ne (by decide), addHsStats_zero]
    exact ⟨rfl, rfl⟩
  | hyperscan =>
    obtain ⟨s', hs', rfl⟩ := Option.map_eq_some_iff.mp h
    refine ⟨?_, rfl⟩
    rw [scansOf, if_pos rfl, List.flatMap_singleton]
    exact hsScanBurst_eq hs'
  | regex =>
    have hafter : (w.afterEnqueue t).hsStats = w.hsStats ∧
        (w.afterEnqueue t).lcoreStats = w.lcoreStats := by
      unfold Worker.afterEnqueue
      split <;> exact ⟨rfl, rfl⟩
    have hdequeue : v.hsStats = (w.afterEnqueue t).hsStats ∧
        v.lcoreStats = (w.afterEnqueue t).lcoreStats := by
      have h : (w.afterEnqueue t).rgxDequeue ticksPerUs t = some v := h
      unfold Worker.rgxDequeue at h
      split at h
      · obtain ⟨_, _, rfl⟩ := Option.map_eq_some_iff.mp h
        exact ⟨rfl, rfl⟩
      · rw [← Option.some.inj h]
        exact ⟨rfl, rfl⟩
    rw [hdequeue.1, hdequeue.2, hafter.1, hafter.2, ofScans_scansOf_of_ne (by decide),
      addHsStats_zero]
    exact ⟨rfl, rfl⟩

/-- A run of the loop from a worker's start. -/
theorem run_counts {ticksPerUs : UInt64} {engine : Engine} {mem : M → PktData}
    {ts : List (Turn M)} {w : Worker args M}
    (h : run (Worker.iteration ticksPerUs engine) (Worker.init args mem) ts = some w) :
    w.hsStats = HsStats.ofScans ticksPerUs (scansOf engine ts) ∧
      w.lcoreStats = LcoreStats.ofTurns engine ts := by
  refine run_history (P := fun ts (w : Worker args M) =>
    w.hsStats = HsStats.ofScans ticksPerUs (scansOf engine ts) ∧
      w.lcoreStats = LcoreStats.ofTurns engine ts) ?_ ?_ h
  · intro ts w t w' hw hstep
    obtain ⟨v, hv, rfl⟩ := Option.map_eq_some_iff.mp hstep
    obtain ⟨hscans, hcycles⟩ := body_counts hv
    constructor
    · show v.hsStats = _
      rw [hscans, hw.1, scansOf_append, HsStats.ofScans_append]
    · show updateCyclesCounts _ _ _ v.lcoreStats = _
      rw [updateCyclesCounts_eq, hcycles, hw.2, ← LcoreStats.ofTurns_append]
  · refine ⟨?_, rfl⟩
    by_cases hengine : engine = .hyperscan
    · rw [scansOf, if_pos hengine]
      rfl
    · rw [ofScans_scansOf_of_ne hengine]
      rfl

/-- The loop behind the label `end` counts nothing. -/
theorem drain_counts {w w' : Worker args M} {bursts : List (List (Completion M))}
    (h : w.drain bursts = some w') :
    w'.hsStats = w.hsStats ∧ w'.lcoreStats = w.lcoreStats := by
  induction bursts generalizing w with
  | nil => cases h
  | cons dqd bursts ih =>
    rw [Worker.drain] at h
    by_cases hpos : dqd.length > 0
    · rw [if_pos hpos] at h
      obtain ⟨hscans, hcycles⟩ := ih h
      rw [hscans, hcycles]
      exact ⟨rfl, rfl⟩
    · rw [if_neg hpos] at h
      rw [← Option.some.inj h]
      exact ⟨rfl, rfl⟩

/-! ## All workers -/

/-- A call of `worker_rx_pkts` that returned. -/
structure ReturnedCall (args : AppArgs) (M : Type) [DecidableEq M] (ticksPerUs : UInt64)
    (engine : Engine) where
  mem : M → PktData
  run : RxRun M
  worker : Worker args M
  stats : AppStats args.rgxStatsHistogramBucketCnt
  returned : workerRxPkts ticksPerUs engine (Worker.init args mem) run = some (worker, stats)

variable {ticksPerUs : UInt64} {engine : Engine}

/-- What a worker returns counts the scans and the cycles of its run. -/
theorem ReturnedCall.stats_eq (c : ReturnedCall args M ticksPerUs engine) :
    c.stats.hsStats = (if engine = .hyperscan then
        some (HsStats.ofScans ticksPerUs (scansOf engine c.run.executed)) else none) ∧
      c.stats.lcoreStats = some (LcoreStats.ofTurns engine c.run.executed) := by
  have h := c.returned
  unfold workerRxPkts at h
  obtain ⟨u, hloop, h⟩ := Option.bind_eq_some_iff.mp h
  obtain ⟨hscans, hcycles⟩ := run_counts hloop
  have hend : ∃ v : Worker args M, (v.hsStats = u.hsStats ∧ v.lcoreStats = u.lcoreStats) ∧
      (if c.run.appStats = true then some (v, v.appStats engine) else none) =
        some (c.worker, c.stats) := by
    by_cases hengine : engine = .regex
    · simp only [if_pos hengine] at h
      obtain ⟨v, hdrain, h⟩ := Option.bind_eq_some_iff.mp h
      exact ⟨v, drain_counts hdrain, h⟩
    · simp only [if_neg hengine] at h
      exact ⟨u, ⟨rfl, rfl⟩, h⟩
  obtain ⟨v, hsame, h⟩ := hend
  by_cases happ : c.run.appStats = true
  · rw [if_pos happ] at h
    rw [← (Prod.mk.inj (Option.some.inj h)).2, Worker.appStats, hsame.1, hsame.2, hscans, hcycles]
    exact ⟨rfl, rfl⟩
  · rw [if_neg happ] at h
    cases h

/-- The iterations of all workers. -/
def allTurns (calls : List (Option (ReturnedCall args M ticksPerUs engine))) : List (Turn M) :=
  calls.flatMap fun c => (c.map fun c => c.run.executed).getD []

/-- `sv.stats`: the entry of a worker without a queue is `NULL`. -/
def svStats (calls : List (Option (ReturnedCall args M ticksPerUs engine))) :
    List (Option (AppStats args.rgxStatsHistogramBucketCnt)) :=
  calls.map fun c => c.map ReturnedCall.stats

theorem blocks_cons {n : ℕ} {R : Type} {get : AppStats n → Option R} {stats : AppStats n} {r : R}
    (h : get stats = some r) (svstats : List (Option (AppStats n))) :
    blocks get (some stats :: svstats) = r :: blocks get svstats :=
  List.filterMap_cons_some h

/-- A loop over the workers adds up what is additive over their iterations. -/
theorem overWorkers_svStats {R : Type} {get : AppStats args.rgxStatsHistogramBucketCnt → Option R}
    {add : R → R → R} (total : List (Turn M) → R)
    (happend : ∀ ts ts', total (ts ++ ts') = add (total ts) (total ts'))
    (hget : ∀ c : ReturnedCall args M ticksPerUs engine, get c.stats = some (total c.run.executed))
    (calls : List (Option (ReturnedCall args M ticksPerUs engine))) (before : List (Turn M)) :
    overWorkers get add (total before) (svStats calls) = total (before ++ allTurns calls) := by
  rw [overWorkers_eq]
  induction calls generalizing before with
  | nil =>
    show total before = total (before ++ [])
    rw [List.append_nil]
  | cons c calls ih =>
    cases c with
    | none => exact ih before
    | some c =>
      show (blocks get (some c.stats :: svStats calls)).foldl add (total before) = _
      rw [blocks_cons (hget c), List.foldl_cons, ← happend, ih, List.append_assoc]
      rfl

/-- The two blocks of the report that are not those of the regex engine. -/
theorem totalPrinted_svStats (calls : List (Option (ReturnedCall args M ticksPerUs engine))) :
    (totalPrinted args (svStats calls)).hsStats =
        HsStats.ofScans ticksPerUs (scansOf engine (allTurns calls)) ∧
      (totalPrinted args (svStats calls)).lcoreStats =
        LcoreStats.ofTurns engine (allTurns calls) := by
  constructor
  · by_cases hengine : engine = .hyperscan
    · have hnil : HsStats.ofScans ticksPerUs (scansOf engine ([] : List (Turn M))) =
          ⟨0, 0, 0, 0⟩ := by
        rw [scansOf, if_pos hengine]
        rfl
      show overWorkers AppStats.hsStats addHsStats ⟨0, 0, 0, 0⟩ _ = _
      rw [← hnil]
      exact overWorkers_svStats (fun ts => HsStats.ofScans ticksPerUs (scansOf engine ts))
        (fun ts ts' => by rw [scansOf_append, HsStats.ofScans_append])
        (fun c => by rw [c.stats_eq.1, if_pos hengine]) calls []
    · -- no worker has the block
      have hblocks : blocks AppStats.hsStats (svStats calls) = [] := by
        rw [blocks, List.filterMap_eq_nil_iff]
        intro entry hentry
        obtain ⟨c, _, rfl⟩ := List.mem_map.mp hentry
        match c with
        | none => rfl
        | some c =>
          show c.stats.hsStats = none
          rw [c.stats_eq.1, if_neg hengine]
      show overWorkers _ _ _ _ = _
      rw [overWorkers_eq, hblocks, ofScans_scansOf_of_ne hengine]
      rfl
  · exact overWorkers_svStats (LcoreStats.ofTurns engine) (LcoreStats.ofTurns_append engine)
      (fun c => c.stats_eq.2) calls []

omit [DecidableEq M] in
/-- The cycles of an iteration are useful or wasted. -/
theorem LcoreStats.ofTurns_sum (engine : Engine) (ts : List (Turn M)) :
    (LcoreStats.ofTurns engine ts).usefulCycles + (LcoreStats.ofTurns engine ts).wastedCycles =
      (ts.map fun t => t.loopEndTs - t.loopStartTs).sum := by
  induction ts with
  | nil => rfl
  | cons t ts ih =>
    rw [List.map_cons, List.sum_cons, ← ih]
    by_cases hwasted : loopWasted engine t = true
    · simp [LcoreStats.ofTurns, hwasted, add_left_comm]
    · simp [LcoreStats.ofTurns, hwasted, add_assoc]

/-- **The report counts every scan and every cycle.** For every engine and any number of workers,
whatever was received in which iteration by which of them: where there is a report, it counts the
scans of Hyperscan that succeeded and the matches of all scans, modulo `2^64`; and its two cycle
counters add up to the cycles of all iterations of all workers, those that had nothing to do in the
second. -/
theorem appStatsDump_counts (h : args.Prints)
    (calls : List (Option (ReturnedCall args M ticksPerUs engine))) :
    ∃ report, statsReport args (svStats calls) = some report ∧
      report.hsStats.totalScans.toNat =
        (scansOf engine (allTurns calls)).countP Scan.success % 2 ^ 64 ∧
      report.hsStats.totalMatches.toNat =
        ((scansOf engine (allTurns calls)).map Scan.matchCount).sum % 2 ^ 64 ∧
      report.lcoreStats.usefulCycles + report.lcoreStats.wastedCycles =
        ((allTurns calls).map fun t => t.loopEndTs - t.loopStartTs).sum ∧
      report.lcoreStats.wastedCycles =
        (((allTurns calls).filter (loopWasted engine)).map fun t =>
          t.loopEndTs - t.loopStartTs).sum := by
  obtain ⟨hscans, hcycles⟩ := totalPrinted_svStats calls
  refine ⟨totalPrinted args (svStats calls), ?_, ?_⟩
  · rw [statsReport_eq, if_pos h]
  · rw [hscans, hcycles]
    exact ⟨UInt64.toNat_ofNat', UInt64.toNat_ofNat', LcoreStats.ofTurns_sum engine _, rfl⟩

/-- Hyperscan. -/
def hsArgs : AppArgs := ⟨true, true, false, 0, 4, 1, 64, 0⟩

/-- A worker that scans two packets, one of them in vain, and then polls an empty queue. -/
def twoScans : ReturnedCall hsArgs ℕ 2 .hyperscan where
  mem := fun _ => ⟨[], [], 0⟩
  run := ⟨true, true,
    [⟨0, [⟨1, [], [], 0, ⟨true, 10, 20, 3⟩⟩, ⟨2, [], [], 0, ⟨false, 20, 25, 0⟩⟩], 0, [], 0, 30⟩,
      ⟨30, [], 0, [], 0, 34⟩], [], true⟩
  worker := _
  stats := ⟨none, some ⟨1, 5, 10, 3⟩, some ⟨4, 30⟩⟩
  returned := rfl

/-- Two workers with two scans each, and one that failed. -/
theorem appStatsDump_counts_twoScans :
    ∃ report, statsReport hsArgs (svStats [some twoScans, none, some twoScans]) = some report ∧
      report.hsStats.totalScans.toNat = 2 ∧ report.hsStats.totalMatches.toNat = 6 ∧
      report.lcoreStats.usefulCycles + report.lcoreStats.wastedCycles = 68 ∧
      report.lcoreStats.wastedCycles = 8 :=
  appStatsDump_counts (by decide) [some twoScans, none, some twoScans]

end RegexTest
end PamoRxpBench
