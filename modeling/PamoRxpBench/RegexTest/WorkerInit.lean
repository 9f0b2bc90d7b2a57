import PamoRxpBench.Library.Heap
import PamoRxpBench.RegexTest.Stats

/-!
# `regex-test`: the set-up of a worker

`worker_init`, with the allocation of the ops and its counterpart. A pointer is the number of the
block that it points to. The pointers of the worker's configuration are null when it is set up.
`none` is `rte_panic`.
-/

namespace PamoRxpBench
namespace RegexTest

/-! ## The ops -/

/-- `struct rte_regex_ops **`: the array, and the pointers in it. -/
structure OpsArray where
  block : ℕ
  ops : List ℕ
deriving DecidableEq, Repr

/-- `regexdev_allocate_ops`: the array, then one block for each op. -/
def regexdevAllocateOps (fails : ℕ → Bool) (opsCnt : UInt16) (h : Heap) :
    Option (Option OpsArray × Heap) :=
  match h.calloc fails opsCnt.toNat with
  | (none, h) => some (none, h)
  | (some block, h) =>
    (Heap.callocs fails opsCnt.toNat h).map fun r => (some ⟨block, r.1⟩, r.2)

/-- `ops[0]`; in a block that is not live, `stale` stands there. -/
def OpsArray.first (stale : Option ℕ) (ops : OpsArray) (h : Heap) : Option ℕ :=
  if ops.block ∈ h.live then ops.ops.head? else stale

/-- `regexdev_deallocate_ops`: the first op is freed, and the array. -/
def regexdevDeallocateOps (stale : Option ℕ) (ops : Option OpsArray) (h : Heap) : Heap :=
  match ops with
  | none => h
  | some ops => (h.freeOpt (ops.first stale h)).free ops.block

/-! ## The worker's variables -/

/-- `struct regex_conf`: what a worker allocates. -/
structure RegexConf where
  ops : Option OpsArray
  stats : Option ℕ
deriving DecidableEq, Repr

/-- `struct hs_conf`: its block, and what a worker allocates. -/
structure HsConf where
  block : ℕ
  stats : Option ℕ
deriving DecidableEq, Repr

/-- `lcore_vars`. -/
structure LcoreVars where
  rgxc : Option RegexConf
  hsc : Option HsConf
  lcoreStats : Option ℕ
deriving DecidableEq, Repr

/-- `lcore_vars lv = {0}`. -/
def LcoreVars.zero : LcoreVars := ⟨none, none, none⟩

/-- What decides the branches: which engines were set up, and what the regex device answers. The
self test may be called twice. -/
structure InitEnv where
  rgxcArr : Bool
  qpIdBase : UInt16
  selftest : ℤ × ℤ
  infoGet : ℤ
  hsScratch : Bool
deriving DecidableEq, Repr

/-- `regexdev_selftest_passed`; `-ENOTSUP` is -95. -/
def regexdevSelftestPassed (selftest : ℤ × ℤ) : Bool := selftest.1 = 0 || selftest.2 = -95

/-- The regex device can be used. -/
def InitEnv.ready (env : InitEnv) : Bool :=
  (env.qpIdBase != 0 || regexdevSelftestPassed env.selftest) && env.infoGet == 0

/-- A part of `worker_init`: whether it goes on (or to the label `fail`), and what it leaves. -/
abbrev Stage := Bool × LcoreVars × Heap

/-- The next part, unless this one failed. -/
def Stage.next (s : Stage) (f : LcoreVars → Heap → Stage) : Stage :=
  if s.1 then f s.2.1 s.2.2 else s

/-! ## `worker_init` -/

section Init

variable (fails : ℕ → Bool) (stale : Option ℕ) (env : InitEnv) (args : AppArgs)

/-- The part for the regex device. -/
def initRegex (lv : LcoreVars) (h : Heap) : Option Stage :=
  if env.rgxcArr then
    if env.ready then
      (regexdevAllocateOps fails (UInt16.ofNat args.portBurstSize) h).map fun r =>
        match r.1 with
        | none => (false, { lv with rgxc := some ⟨none, none⟩ }, r.2)
        | some ops =>
          match r.2.calloc fails args.rgxStatsHistogramBucketCnt with
          | (none, h) =>
            -- the pointer to the ops stays
            (false, { lv with rgxc := some ⟨some ops, none⟩ },
              regexdevDeallocateOps stale (some ops) h)
          | (some stats, h) => (true, { lv with rgxc := some ⟨some ops, some stats⟩ }, h)
    else some (false, { lv with rgxc := some ⟨none, none⟩ }, h)
  else some (true, lv, h)

/-- The part for Hyperscan. -/
def initHs (lv : LcoreVars) (h : Heap) : Stage :=
  if env.hsScratch then
    match h.calloc fails 1 with
    | (none, h) => (false, lv, h)
    | (some block, h) =>
      match h.calloc fails 1 with
      | (none, h) => (false, { lv with hsc := some ⟨block, none⟩ }, h)
      | (some stats, h) => (true, { lv with hsc := some ⟨block, some stats⟩ }, h)
  else (true, lv, h)

/-- The part for the cycle counts. -/
def initLcore (lv : LcoreVars) (h : Heap) : Stage :=
  match lv.lcoreStats with
  | some _ => (true, lv, h)
  | none =>
    match h.calloc fails 1 with
    | (none, h) => (false, lv, h)
    | (some lcoreStats, h) => (true, { lv with lcoreStats := some lcoreStats }, h)

/-- What the label `fail` frees of the regex configuration. -/
def freeRegexConf (rgxc : Option RegexConf) (h : Heap) : Heap :=
  match rgxc with
  | none => h
  | some rgxc => (regexdevDeallocateOps stale rgxc.ops h).freeOpt rgxc.stats

/-- What the label `fail` frees of the Hyperscan configuration. -/
def freeHsConf (hsc : Option HsConf) (h : Heap) : Heap :=
  match hsc with
  | none => h
  | some hsc => (h.freeOpt hsc.stats).free hsc.block

/-- The label `fail`. -/
def failLabel (lv : LcoreVars) (h : Heap) : Heap :=
  (freeHsConf lv.hsc (freeRegexConf stale lv.rgxc h)).freeOpt lv.lcoreStats

/-- `worker_init` with its allocations: the return value, and what it leaves; `workerInit` is the
worker that it sets up. -/
def workerInitHeap (h : Heap) : Option (ℤ × LcoreVars × Heap) :=
  (initRegex fails stale env args .zero h).map fun regex =>
    let s := (regex.next (initHs fails env)).next (initLcore fails)
    if s.1 then (0, s.2) else (-1, s.2.1, failLabel stale s.2.1 s.2.2)

end Init

end RegexTest
end PamoRxpBench
