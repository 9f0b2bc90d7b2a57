import PamoRxpBench.RegexTest.WorkerInit

/-!
# Allocations of the worker's set-up

* `workerInit_balanced_iff`: when `worker_init` fails, all that it allocated is freed once exactly
  when there are no ops, or one op and its histogram; and an array of ops is freed as it was
  allocated exactly when it has one op.

The parts behind the ops free what they allocated (`freeHsConf_later`). What is left of the ops is
decided by their number alone: only the first one is freed. When the histogram cannot be allocated,
they are freed at once, and again behind the label `fail`.
-/

namespace PamoRxpBench
namespace RegexTest

open Heap

variable {fails : ℕ → Bool} {stale : Option ℕ} {env : InitEnv} {args : AppArgs}

/-! ## The ops -/

/-- An array of ops: consecutive blocks. -/
theorem regexdevAllocateOps_spec {opsCnt : UInt16} {ops : OpsArray} {h h' : Heap}
    (halloc : regexdevAllocateOps fails opsCnt h = some (some ops, h')) :
    ¬ (opsCnt.toNat = 0 ∨ fails h.calls = true) ∧
      ops = ⟨h.next, List.range' (h.next + 1) opsCnt.toNat⟩ ∧
      h'.next = h.next + 1 + opsCnt.toNat ∧ h'.calls = h.calls + 1 + opsCnt.toNat ∧ Grown h h' := by
  unfold regexdevAllocateOps at halloc
  cases hcall : h.calloc fails opsCnt.toNat with
  | mk result h₁ =>
    rw [hcall] at halloc
    cases result with
    | none => cases (Prod.mk.inj (Option.some.inj halloc)).1
    | some block =>
      obtain ⟨r, hr, heq⟩ := Option.map_eq_some_iff.mp halloc
      obtain ⟨hnot, rfl, rfl⟩ := calloc_eq_some hcall
      obtain ⟨hops, rfl⟩ := Prod.mk.inj heq
      obtain ⟨hbs, hnext, hcount, hgrown⟩ := callocs_spec hr
      have hgive : h.give.next = h.next + 1 := rfl
      have hone : h.give.calls = h.calls + 1 := rfl
      refine ⟨hnot, ?_, by omega, by omega, (grown_give h).trans hgrown⟩
      rw [← Option.some.inj hops, hbs, hgive]

/-- When no array of ops is given. -/
theorem regexdevAllocateOps_eq_none {opsCnt : UInt16} {h h' : Heap}
    (halloc : regexdevAllocateOps fails opsCnt h = some (none, h')) :
    (opsCnt.toNat = 0 ∨ fails h.calls = true) ∧ h' = h.refuse := by
  unfold regexdevAllocateOps at halloc
  cases hcall : h.calloc fails opsCnt.toNat with
  | mk result h₁ =>
    rw [hcall] at halloc
    cases result with
    | none =>
      rw [← (Prod.mk.inj (Option.some.inj halloc)).2]
      exact calloc_eq_none hcall
    | some block =>
      obtain ⟨r, -, heq⟩ := Option.map_eq_some_iff.mp halloc
      cases (Prod.mk.inj heq).1

/-- In a live array the first op is found. -/
theorem first_of_mem {ops : OpsArray} {h : Heap} (hlive : ops.block ∈ h.live) :
    ops.first stale h = ops.ops.head? := if_pos hlive

theorem frees_regexdevDeallocateOps (ops : OpsArray) (h : Heap) :
    (regexdevDeallocateOps stale (some ops) h).frees =
      h.frees ++ (ops.first stale h).toList ++ [ops.block] := by
  rw [regexdevDeallocateOps, frees_free, frees_freeOpt]

theorem next_regexdevDeallocateOps (ops : Option OpsArray) (h : Heap) :
    (regexdevDeallocateOps stale ops h).next = h.next := by
  cases ops with
  | none => rfl
  | some ops => rw [regexdevDeallocateOps, next_free, next_freeOpt]

theorem head?_range' {s n : ℕ} (hn : n ≠ 0) : (List.range' s n).head? = some s := by
  cases n with
  | zero => exact absurd rfl hn
  | succ n => rfl

/-- The array and its ops are live. -/
theorem Grown.block_mem {h h' : Heap} {n : ℕ} (hgrown : Grown h h')
    (hnext : h'.next = h.next + 1 + n) : h.next ∈ h'.live := by
  rw [hgrown.mem_live]
  right
  omega

/-- An array is freed as it was allocated just when it has one op. -/
theorem live_deallocate_iff {opsCnt : UInt16} {ops : OpsArray} {h h' : Heap}
    (halloc : regexdevAllocateOps fails opsCnt h = some (some ops, h')) :
    (regexdevDeallocateOps stale (some ops) h').live = h.live ↔ opsCnt.toNat = 1 := by
  obtain ⟨hnot, rfl, hnext, -, hgrown⟩ := regexdevAllocateOps_spec halloc
  have hpos : opsCnt.toNat ≠ 0 := fun hzero => hnot (Or.inl hzero)
  have hblock : h.next ∈ h'.live := Grown.block_mem hgrown hnext
  have hlive : ∀ b, b ∈ (regexdevDeallocateOps stale
      (some ⟨h.next, List.range' (h.next + 1) opsCnt.toNat⟩) h').live ↔
        b ≠ h.next ∧ b ≠ h.next + 1 ∧ b ∈ h'.live := by
    intro b
    rw [regexdevDeallocateOps, first_of_mem hblock, head?_range' hpos]
    show b ∈ (h'.live.erase (h.next + 1)).erase h.next ↔ _
    rw [Finset.mem_erase, Finset.mem_erase]
  constructor
  · intro heq
    by_contra hone
    have hsecond : h.next + 2 ∈ h.live := by
      rw [← heq, hlive, hgrown.mem_live]
      omega
    have := h.fresh _ hsecond
    omega
  · intro hone
    ext b
    rw [hlive, hgrown.mem_live]
    constructor
    · intro ⟨hb, hb', hmem⟩
      rcases hmem with hmem | hmem
      · exact hmem
      · omega
    · intro hmem
      have := h.fresh b hmem
      exact ⟨by omega, by omega, Or.inl hmem⟩

/-! ## The parts behind the ops -/

/-- A worker without its variables has nothing to free. -/
theorem initLcore_fail {rgxc : Option RegexConf} {hsc : Option HsConf} {h h' : Heap}
    {lv : LcoreVars}
    (hfail : initLcore fails ⟨rgxc, hsc, none⟩ h = (false, lv, h')) :
    lv = ⟨rgxc, hsc, none⟩ ∧ h' = h.refuse := by
  unfold initLcore at hfail
  cases hcall : h.calloc fails 1 with
  | mk result h₁ =>
    rw [hcall] at hfail
    cases result with
    | none =>
      obtain ⟨hlv, rfl⟩ := Prod.mk.inj (Prod.mk.inj hfail).2
      exact ⟨hlv.symm, (calloc_eq_none hcall).2⟩
    | some b => cases (Prod.mk.inj hfail).1

/-- The ways in which the parts behind the ops fail: how much of the Hyperscan configuration there
is, and how many blocks were allocated for it. -/
theorem later_fail {rgxc : Option RegexConf} {h h' : Heap} {lv : LcoreVars}
    (hlater : Stage.next (initHs fails env ⟨rgxc, none, none⟩ h) (initLcore fails) =
      (false, lv, h')) :
    (lv = ⟨rgxc, none, none⟩ ∧ h' = h.refuse) ∨
    (lv = ⟨rgxc, some ⟨h.next, none⟩, none⟩ ∧ h' = h.give.refuse) ∨
    (lv = ⟨rgxc, some ⟨h.next, some (h.next + 1)⟩, none⟩ ∧ h' = h.give.give.refuse) := by
  by_cases hscratch : env.hsScratch = true
  · rw [initHs, if_pos hscratch] at hlater
    cases hconf : h.calloc fails 1 with
    | mk result h₁ =>
      rw [hconf] at hlater
      cases result with
      | none =>
        obtain ⟨hlv, rfl⟩ := Prod.mk.inj (Prod.mk.inj hlater).2
        exact Or.inl ⟨hlv.symm, (calloc_eq_none hconf).2⟩
      | some block =>
        obtain ⟨-, rfl, rfl⟩ := calloc_eq_some hconf
        cases hstats : h.give.calloc fails 1 with
        | mk result h₂ =>
          simp only [hstats] at hlater
          cases result with
          | none =>
            obtain ⟨hlv, rfl⟩ := Prod.mk.inj (Prod.mk.inj hlater).2
            exact Or.inr (Or.inl ⟨hlv.symm, (calloc_eq_none hstats).2⟩)
          | some stats =>
            obtain ⟨-, rfl, rfl⟩ := calloc_eq_some hstats
            exact Or.inr (Or.inr (initLcore_fail hlater))
  · rw [initHs, if_neg hscratch] at hlater
    exact Or.inl (initLcore_fail hlater)

/-- When a later part fails, the label `fail` frees what these parts allocated, each block once. -/
theorem freeHsConf_later {rgxc : Option RegexConf} {h h' : Heap} {lv : LcoreVars}
    (hlater : Stage.next (initHs fails env ⟨rgxc, none, none⟩ h) (initLcore fails) =
      (false, lv, h')) :
    lv.rgxc = rgxc ∧ lv.lcoreStats = none ∧ Grown h h' ∧
      ∃ freed, freed.Nodup ∧ (∀ b, b ∈ freed ↔ h.next ≤ b ∧ b < h'.next) ∧
        ∀ u : Heap, (freeHsConf lv.hsc u).frees = u.frees ++ freed := by
  rcases later_fail hlater with ⟨rfl, rfl⟩ | ⟨rfl, rfl⟩ | ⟨rfl, rfl⟩
  · refine ⟨rfl, rfl, grown_refuse h, [], List.nodup_nil, fun b => ?_, fun u => ?_⟩
    · refine iff_of_false List.not_mem_nil fun hb => ?_
      exact Nat.not_lt.mpr hb.1 hb.2
    · exact (List.append_nil _).symm
  · refine ⟨rfl, rfl, (grown_give h).trans (grown_refuse _), [h.next], List.nodup_singleton _,
      fun b => ?_, fun u => rfl⟩
    have hnext : h.give.refuse.next = h.next + 1 := rfl
    rw [List.mem_singleton, hnext]
    omega
  · refine ⟨rfl, rfl, ((grown_give h).trans (grown_give _)).trans (grown_refuse _),
      [h.next + 1, h.next], by simp, fun b => ?_, fun u => ?_⟩
    · have hnext : h.give.give.refuse.next = h.next + 2 := rfl
      rw [List.mem_cons, List.mem_singleton, hnext]
      omega
    · show u.frees ++ [h.next + 1] ++ [h.next] = _
      rw [List.append_assoc, List.singleton_append]

/-! ## `worker_init` -/

/-- What `worker_init` does when it fails: the regex part has failed, or a later one. -/
theorem workerInit_fail {h h' : Heap} {lv : LcoreVars}
    (hinit : workerInitHeap fails stale env args h = some (-1, lv, h')) :
    ∃ u, h' = failLabel stale lv u ∧
      (initRegex fails stale env args .zero h = some (false, lv, u) ∨
        ∃ lv₁ h₁, initRegex fails stale env args .zero h = some (true, lv₁, h₁) ∧
          Stage.next (initHs fails env lv₁ h₁) (initLcore fails) = (false, lv, u)) := by
  obtain ⟨regex, hregex, heq⟩ := Option.map_eq_some_iff.mp hinit
  obtain ⟨ok, lv₁, h₁⟩ := regex
  cases ok with
  | false =>
    obtain ⟨-, heq⟩ := Prod.mk.inj heq
    obtain ⟨rfl, rfl⟩ := Prod.mk.inj heq
    exact ⟨h₁, rfl, Or.inl hregex⟩
  | true =>
    have heq : (if (Stage.next (initHs fails env lv₁ h₁) (initLcore fails)).1 = true then
        ((0 : ℤ), (Stage.next (initHs fails env lv₁ h₁) (initLcore fails)).2) else
        (-1, (Stage.next (initHs fails env lv₁ h₁) (initLcore fails)).2.1,
          failLabel stale (Stage.next (initHs fails env lv₁ h₁) (initLcore fails)).2.1
            (Stage.next (initHs fails env lv₁ h₁) (initLcore fails)).2.2)) = (-1, lv, h') := heq
    cases hlater : Stage.next (initHs fails env lv₁ h₁) (initLcore fails) with
    | mk ok rest =>
      rw [hlater] at heq
      cases ok with
      | true => cases (Prod.mk.inj heq).1
      | false =>
        obtain ⟨-, heq⟩ := Prod.mk.inj heq
        obtain ⟨rfl, rfl⟩ := Prod.mk.inj heq
        exact ⟨rest.2, rfl, Or.inr ⟨lv₁, h₁, hregex, hlater⟩⟩

/-- The regex part with the device ready, and its ops. -/
theorem initRegex_of_ready {h h₁ : Heap} {ops : OpsArray} (harr : env.rgxcArr = true)
    (hready : env.ready = true)
    (hops : regexdevAllocateOps fails (UInt16.ofNat args.portBurstSize) h = some (some ops, h₁)) :
    initRegex fails stale env args .zero h =
      some (match h₁.calloc fails args.rgxStatsHistogramBucketCnt with
        | (none, h) => (false, ⟨some ⟨some ops, none⟩, none, none⟩,
            regexdevDeallocateOps stale (some ops) h)
        | (some stats, h) => (true, ⟨some ⟨some ops, some stats⟩, none, none⟩, h)) := by
  rw [initRegex, if_pos harr, if_pos hready, hops]
  rfl

/-- How the regex part ends. -/
theorem initRegex_cases {h u : Heap} {lv : LcoreVars} {ok : Bool}
    (hregex : initRegex fails stale env args .zero h = some (ok, lv, u)) :
    (env.rgxcArr = false ∧ ok = true ∧ lv = .zero ∧ u = h) ∨
    (env.rgxcArr = true ∧
      (env.ready = false ∨ (UInt16.ofNat args.portBurstSize).toNat = 0 ∨ fails h.calls = true) ∧
      ok = false ∧ lv = ⟨some ⟨none, none⟩, none, none⟩ ∧ u.next = h.next ∧ u.frees = h.frees) ∨
    (env.rgxcArr = true ∧ env.ready = true ∧ ∃ ops h₁,
      regexdevAllocateOps fails (UInt16.ofNat args.portBurstSize) h = some (some ops, h₁) ∧
      ((ok = false ∧ (args.rgxStatsHistogramBucketCnt = 0 ∨ fails h₁.calls = true) ∧
          lv = ⟨some ⟨some ops, none⟩, none, none⟩ ∧
          u = regexdevDeallocateOps stale (some ops) h₁.refuse) ∨
        (ok = true ∧ ¬ (args.rgxStatsHistogramBucketCnt = 0 ∨ fails h₁.calls = true) ∧
          lv = ⟨some ⟨some ops, some h₁.next⟩, none, none⟩ ∧ u = h₁.give))) := by
  by_cases harr : env.rgxcArr = true
  · by_cases hready : env.ready = true
    · -- the array of the ops comes first
      cases halloc : regexdevAllocateOps fails (UInt16.ofNat args.portBurstSize) h with
      | none =>
        rw [initRegex, if_pos harr, if_pos hready, halloc] at hregex
        cases hregex
      | some r =>
        obtain ⟨ops, h₁⟩ := r
        cases ops with
        | none =>
          obtain ⟨hfail, rfl⟩ := regexdevAllocateOps_eq_none halloc
          rw [initRegex, if_pos harr, if_pos hready, halloc] at hregex
          obtain ⟨rfl, heq⟩ := Prod.mk.inj (Option.some.inj hregex)
          obtain ⟨rfl, rfl⟩ := Prod.mk.inj heq
          exact Or.inr (Or.inl ⟨harr, Or.inr hfail, rfl, rfl, rfl, rfl⟩)
        | some ops =>
          rw [initRegex_of_ready harr hready halloc] at hregex
          refine Or.inr (Or.inr ⟨harr, hready, ops, h₁, rfl, ?_⟩)
          -- then the statistics, and the array goes back if they fail
          cases hstats : h₁.calloc fails args.rgxStatsHistogramBucketCnt with
          | mk result h₂ =>
            rw [hstats] at hregex
            cases result with
            | none =>
              obtain ⟨hfail, rfl⟩ := calloc_eq_none hstats
              obtain ⟨rfl, heq⟩ := Prod.mk.inj (Option.some.inj hregex)
              obtain ⟨rfl, rfl⟩ := Prod.mk.inj heq
              exact Or.inl ⟨rfl, hfail, rfl, rfl⟩
            | some stats =>
              obtain ⟨hnot, rfl, rfl⟩ := calloc_eq_some hstats
              obtain ⟨rfl, heq⟩ := Prod.mk.inj (Option.some.inj hregex)
              obtain ⟨rfl, rfl⟩ := Prod.mk.inj heq
              exact Or.inr ⟨rfl, hnot, rfl, rfl⟩
    · rw [initRegex, if_pos harr, if_neg hready] at hregex
      obtain ⟨rfl, heq⟩ := Prod.mk.inj (Option.some.inj hregex)
      obtain ⟨rfl, rfl⟩ := Prod.mk.inj heq
      exact Or.inr (Or.inl ⟨harr, Or.inl (eq_false_of_ne_true hready), rfl, rfl, rfl, rfl⟩)
  · rw [initRegex, if_neg harr] at hregex
    obtain ⟨rfl, heq⟩ := Prod.mk.inj (Option.some.inj hregex)
    obtain ⟨rfl, rfl⟩ := Prod.mk.inj heq
    exact Or.inl ⟨eq_false_of_ne_true harr, rfl, rfl, rfl⟩

/-- The set-up fails before there are ops, or with one op and its histogram. -/
def ReleasesAll (fails : ℕ → Bool) (env : InitEnv) (args : AppArgs) (h : Heap) : Prop :=
  env.rgxcArr = false ∨ env.ready = false ∨ (UInt16.ofNat args.portBurstSize).toNat = 0 ∨
    fails h.calls = true ∨
    ((UInt16.ofNat args.portBurstSize).toNat = 1 ∧ args.rgxStatsHistogramBucketCnt ≠ 0 ∧
      fails (h.calls + 2) = false)

/-- The frees behind the label `fail`, of ops that are live. -/
theorem frees_failLabel {ops : OpsArray} {stats : Option ℕ} {u : Heap} {hsc : Option HsConf}
    {freed : List ℕ} (hlive : ops.block ∈ u.live)
    (hfreed : ∀ u : Heap, (freeHsConf hsc u).frees = u.frees ++ freed) :
    (failLabel stale ⟨some ⟨some ops, stats⟩, hsc, none⟩ u).frees =
      u.frees ++ (ops.ops.head?.toList ++ [ops.block] ++ stats.toList ++ freed) := by
  show (freeHsConf hsc ((regexdevDeallocateOps stale (some ops) u).freeOpt stats)).frees = _
  rw [hfreed, frees_freeOpt, frees_regexdevDeallocateOps, first_of_mem hlive]
  simp only [List.append_assoc]

theorem next_failLabel (lv : LcoreVars) (u : Heap) : (failLabel stale lv u).next = u.next := by
  have hregex : (freeRegexConf stale lv.rgxc u).next = u.next := by
    cases lv.rgxc with
    | none => rfl
    | some rgxc => rw [freeRegexConf, next_freeOpt, next_regexdevDeallocateOps]
  have hhs : ∀ u, (freeHsConf lv.hsc u).next = u.next := by
    intro u
    cases lv.hsc with
    | none => rfl
    | some hsc => rw [freeHsConf, next_free, next_freeOpt]
  rw [failLabel, next_freeOpt, hhs, hregex]

/-- With ops and their histogram, a failure later on leaves all ops but the first one. -/
theorem balanced_later_iff {h h₁ u : Heap} {ops : OpsArray} {lv : LcoreVars} {opsCnt : UInt16}
    (halloc : regexdevAllocateOps fails opsCnt h = some (some ops, h₁))
    (hlater : Stage.next (initHs fails env ⟨some ⟨some ops, some h₁.next⟩, none, none⟩ h₁.give)
      (initLcore fails) = (false, lv, u)) :
    Balanced h (failLabel stale lv u) ↔ opsCnt.toNat = 1 := by
  obtain ⟨hnot, rfl, hnext, -, hgrown⟩ := regexdevAllocateOps_spec halloc
  obtain ⟨hrgxc, hlcore, hlast, freed, hnodup, hmem, hfreed⟩ := freeHsConf_later hlater
  obtain ⟨rgxc, hsc, lcoreStats⟩ := lv
  obtain rfl : rgxc = _ := hrgxc
  obtain rfl : lcoreStats = none := hlcore
  have hpos : opsCnt.toNat ≠ 0 := fun hzero => hnot (Or.inl hzero)
  have hgive : h₁.give.next = h₁.next + 1 := rfl
  have hall : Grown h u := (hgrown.trans (grown_give h₁)).trans hlast
  have hle := hlast.next_le
  have hblock : h.next ∈ u.live := by
    rw [hall.mem_live]
    right
    omega
  have hfrees : (failLabel stale ⟨some ⟨some ⟨h.next, List.range' (h.next + 1) opsCnt.toNat⟩,
      some h₁.next⟩, _, none⟩ u).frees = _ := frees_failLabel hblock hfreed
  rw [hall.frees_eq, head?_range' hpos] at hfrees
  have hin : ∀ b, b ∈ (some (h.next + 1)).toList ++ [h.next] ++ (some h₁.next).toList ++ freed ↔
      b = h.next + 1 ∨ b = h.next ∨ b = h₁.next ∨ h₁.next + 1 ≤ b ∧ b < u.next := by
    intro b
    rw [← hgive, ← hmem]
    simp only [Option.toList_some, List.cons_append, List.nil_append, List.mem_cons]
  rw [balanced_iff hfrees, next_failLabel]
  constructor
  · intro hboth
    by_contra hone
    -- the second op is live and never freed
    have hsecond := (hin _).mp (hboth.2 (h.next + 2) (by omega) (by omega))
    omega
  · intro hone
    refine ⟨?_, fun b hb hb' => (hin b).mpr (by omega)⟩
    have hnew : ∀ b ∈ freed, h₁.next + 1 ≤ b := fun b hb => ((hmem b).mp hb).1
    show ((h.next + 1) :: h.next :: h₁.next :: freed).Nodup
    rw [List.nodup_cons, List.nodup_cons, List.nodup_cons, List.mem_cons, List.mem_cons,
      List.mem_cons]
    refine ⟨?_, ?_, fun hb => ?_, hnodup⟩
    · rintro (heq | heq | hb)
      · omega
      · omega
      · have := hnew _ hb
        omega
    · rintro (heq | hb)
      · omega
      · have := hnew _ hb
        omega
    · have := hnew _ hb
      omega

/-- Without a histogram the array is freed twice. -/
theorem not_balanced_twice {h h₁ : Heap} {ops : OpsArray} {opsCnt : UInt16}
    (halloc : regexdevAllocateOps fails opsCnt h = some (some ops, h₁)) :
    ¬ Balanced h (failLabel stale ⟨some ⟨some ops, none⟩, none, none⟩
      (regexdevDeallocateOps stale (some ops) h₁.refuse)) := by
  obtain ⟨-, -, -, -, hgrown⟩ := regexdevAllocateOps_spec halloc
  have hrefuse : h₁.refuse.frees = h.frees := hgrown.frees_eq
  have hfrees : (failLabel stale ⟨some ⟨some ops, none⟩, none, none⟩
      (regexdevDeallocateOps stale (some ops) h₁.refuse)).frees = h.frees ++
        ((ops.first stale h₁.refuse).toList ++ ops.block ::
          ((ops.first stale (regexdevDeallocateOps stale (some ops) h₁.refuse)).toList ++
            [ops.block])) := by
    show (regexdevDeallocateOps stale (some ops)
      (regexdevDeallocateOps stale (some ops) h₁.refuse)).frees = _
    rw [frees_regexdevDeallocateOps, frees_regexdevDeallocateOps, hrefuse]
    simp only [List.append_assoc, List.cons_append, List.nil_append]
  rw [balanced_iff hfrees]
  intro hboth
  have htail := (List.nodup_append.mp hboth.1).2.1
  exact (List.nodup_cons.mp htail).1 (List.mem_append_right _ (List.mem_singleton_self _))

/-- All that a failing `worker_init` allocated is freed once just when there were no ops, or one op
and its histogram; and an array of ops is freed as it was allocated just when it has one op. -/
theorem workerInit_balanced_iff (fails : ℕ → Bool) (stale : Option ℕ) :
    (∀ (env : InitEnv) (args : AppArgs) (h h' : Heap) (lv : LcoreVars),
      workerInitHeap fails stale env args h = some (-1, lv, h') →
        (Balanced h h' ↔ ReleasesAll fails env args h)) ∧
    ∀ (opsCnt : UInt16) (ops : OpsArray) (h h' : Heap),
      regexdevAllocateOps fails opsCnt h = some (some ops, h') →
        ((regexdevDeallocateOps stale (some ops) h').live = h.live ↔ opsCnt.toNat = 1) := by
  refine ⟨fun env args h h' lv hinit => ?_, fun opsCnt ops h h' => live_deallocate_iff⟩
  obtain ⟨u, rfl, hends⟩ := workerInit_fail hinit
  rcases hends with hregex | ⟨lv₁, h₁, hregex, hlater⟩
  · rcases initRegex_cases hregex with ⟨-, hok, -⟩ | ⟨harr, hwhy, -, rfl, hnext, hfrees⟩ |
      ⟨harr, hready, ops, h₁, halloc, hend⟩
    · cases hok
    · -- nothing was allocated
      have hnone : (failLabel stale ⟨some ⟨none, none⟩, none, none⟩ u).frees = h.frees ++ [] := by
        rw [List.append_nil]
        exact hfrees
      rw [balanced_iff hnone, next_failLabel, hnext]
      refine iff_of_true ⟨List.nodup_nil, fun b hb hb' => absurd hb' (Nat.not_lt.mpr hb)⟩ ?_
      rcases hwhy with hready | hzero | hfail
      · exact Or.inr (Or.inl hready)
      · exact Or.inr (Or.inr (Or.inl hzero))
      · exact Or.inr (Or.inr (Or.inr (Or.inl hfail)))
    · rcases hend with ⟨-, hstats, rfl, rfl⟩ | ⟨hok, -⟩
      · refine iff_of_false (not_balanced_twice halloc) ?_
        obtain ⟨hnot, -, -, hcalls, -⟩ := regexdevAllocateOps_spec halloc
        rintro (h | h | h | h | ⟨hone, hcnt, hok⟩)
        · exact Bool.noConfusion (h.symm.trans harr)
        · exact Bool.noConfusion (h.symm.trans hready)
        · exact hnot (Or.inl h)
        · exact hnot (Or.inr h)
        · rcases hstats with hzero | hfail
          · exact hcnt hzero
          · rw [hcalls, hone, hok] at hfail
            exact Bool.noConfusion hfail
      · cases hok
  · rcases initRegex_cases hregex with ⟨harr, -, rfl, rfl⟩ | ⟨-, -, hok, -⟩ |
      ⟨harr, hready, ops, h₂, halloc, hend⟩
    · obtain ⟨hrgxc, hlcore, hgrown, freed, hnodup, hmem, hfreed⟩ := freeHsConf_later hlater
      obtain ⟨rgxc, hsc, lcoreStats⟩ := lv
      obtain rfl : rgxc = none := hrgxc
      obtain rfl : lcoreStats = none := hlcore
      have hfrees : (failLabel stale ⟨none, hsc, none⟩ u).frees = h₁.frees ++ freed := by
        show (freeHsConf hsc u).frees = _
        rw [hfreed, hgrown.frees_eq]
      rw [balanced_iff hfrees, next_failLabel]
      exact iff_of_true ⟨hnodup, fun b hb hb' => (hmem b).mpr ⟨hb, hb'⟩⟩ (Or.inl harr)
    · cases hok
    · rcases hend with ⟨hok, -⟩ | ⟨-, hstats, rfl, rfl⟩
      · cases hok
      · rw [balanced_later_iff halloc hlater]
        obtain ⟨hnot, -, -, hcalls, -⟩ := regexdevAllocateOps_spec halloc
        constructor
        · intro hone
          refine Or.inr (Or.inr (Or.inr (Or.inr ⟨hone, fun h => hstats (Or.inl h), ?_⟩)))
          apply eq_false_of_ne_true
          intro hfail
          apply hstats
          right
          rw [hcalls, hone]
          exact hfail
        · rintro (h | h | h | h | ⟨hone, -⟩)
          · exact Bool.noConfusion (h.symm.trans harr)
          · exact Bool.noConfusion (h.symm.trans hready)
          · exact absurd (Or.inl h) hnot
          · exact absurd (Or.inr h) hnot
          · exact hone

/-- The regex device is ready, and Hyperscan is not used. -/
def readyEnv : InitEnv := ⟨true, 0, (0, 0), 0, false⟩

/-- Buckets of one packet, and bursts of `burst`. -/
def burstArgs (burst : ℕ) : AppArgs := ⟨true, false, true, 1, 1, 1, burst, 1⟩

/-- One op: the cycle counts cannot be allocated, and all is freed. -/
theorem workerInit_balanced_one :
    (∃ lv h', workerInitHeap (· == 3) none readyEnv (burstArgs 1) Heap.empty = some (-1, lv, h') ∧
      (Balanced Heap.empty h' ↔ ReleasesAll (· == 3) readyEnv (burstArgs 1) Heap.empty)) ∧
    ∃ ops h', regexdevAllocateOps (· == 3) 1 Heap.empty = some (some ops, h') ∧
      ((regexdevDeallocateOps none (some ops) h').live = Heap.empty.live ↔
        (1 : UInt16).toNat = 1) :=
  ⟨⟨_, _, rfl, (workerInit_balanced_iff (· == 3) none).1 _ _ _ _ _ rfl⟩,
    ⟨_, _, rfl, (workerInit_balanced_iff (· == 3) none).2 _ _ _ _ rfl⟩⟩

/-- Two ops: the second one is left. -/
theorem not_workerInit_balanced :
    (¬ ∀ (fails : ℕ → Bool) (stale : Option ℕ) (env : InitEnv) (args : AppArgs) (h h' : Heap)
      (lv : LcoreVars), workerInitHeap fails stale env args h = some (-1, lv, h') → Balanced h h') ∧
    ¬ ∀ (fails : ℕ → Bool) (stale : Option ℕ) (opsCnt : UInt16) (ops : OpsArray) (h h' : Heap),
      regexdevAllocateOps fails opsCnt h = some (some ops, h') →
        (regexdevDeallocateOps stale (some ops) h').live = h.live := by
  constructor
  · intro hall
    obtain ⟨freed, hfrees, -, hcover⟩ :=
      hall (· == 4) none readyEnv (burstArgs 2) Heap.empty _ _ rfl
    have hfreed : freed = [1, 0, 3] := hfrees.symm
    have hsecond := hcover 2 (by decide) (by decide)
    rw [hfreed] at hsecond
    exact absurd hsecond (by decide)
  · intro hall
    have hlive := hall (fun _ => false) none 2 ⟨0, [1, 2]⟩ Heap.empty _ rfl
    exact absurd hlive (by decide)

end RegexTest
end PamoRxpBench
