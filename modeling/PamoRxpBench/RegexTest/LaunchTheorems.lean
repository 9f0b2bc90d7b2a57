import PamoRxpBench.RegexTest.Launch
import PamoRxpBench.RegexTest.StatsDumpTheorems
import PamoRxpBench.RegexTest.WorkerRunTheorems

/-!
# The report does not depend on the order of the workers

Every queue goes to one worker, which leaves its statistics in the queue's place (`Launch.Inv`). So
when all workers have returned the places hold the statistics of the workers in the order of their
queues, and the report is the one of the workers in their own order (`report_eq_of_returned`).
-/

namespace PamoRxpBench
namespace RegexTest

open Runs

variable {W : ℕ} {args : AppArgs} {calls : Calls W args}

/-- What holds between the actions: the place of a queue is written by the worker that had it. -/
structure Launch.Inv (calls : Calls W args) (l : Launch W args) : Prop where
  numbered : ∃ n, Numbered (UInt16.ofNat W) l.sv n
  noQuit : ∀ i, l.sv.phase i ≠ .quit
  length_eq : l.stats.length = maxWorkerThreads
  written : ∀ i qid, l.sv.phase i = .finished qid → l.stats[qid.toNat]? = some (calls i qid).join
  unwritten : ∀ q < maxWorkerThreads, (∀ i qid, l.sv.phase i = .finished qid → qid.toNat ≠ q) →
    l.stats[q]? = some none

theorem Launch.Inv.init : (Launch.init W args).Inv calls where
  numbered := ⟨0, Numbered.init W _⟩
  noQuit := fun _ => WorkerPhase.noConfusion
  length_eq := List.length_replicate
  written := fun _ _ h => WorkerPhase.noConfusion h
  unwritten := by
    intro q hq _
    rw [Launch.init, List.getElem?_replicate, if_pos hq]

/-- The queue of a worker is in range, and its own. -/
theorem Launch.Inv.queue_lt {l : Launch W args} (h : l.Inv calls) {i : Fin W} {qid : UInt16}
    (hi : (l.sv.phase i).number = some qid) : qid.toNat < W := by
  obtain ⟨n, hn⟩ := h.numbered
  have hlt := hn.lt i qid hi
  have hcard := hn.waiting
  omega

/-- A worker that goes on without returning. -/
theorem Launch.Inv.advance {l l' : Launch W args} (h : l.Inv calls) {i : Fin W} {p : WorkerPhase}
    (hnumbered : ∃ n, Numbered (UInt16.ofNat W) l'.sv n)
    (hphase : l'.sv.phase = Function.update l.sv.phase i p) (hstats : l'.stats = l.stats)
    (hbefore : (l.sv.phase i).returned = false) (hp : p.returned = false) : l'.Inv calls := by
  have hfinished (j : Fin W) (qid : UInt16) :
      l'.sv.phase j = .finished qid ↔ l.sv.phase j = .finished qid := by
    rw [hphase]
    by_cases hji : j = i
    · subst hji
      rw [Function.update_self]
      refine iff_of_false (fun heq => ?_) fun heq => ?_
      · rw [heq] at hp
        cases hp
      · rw [heq] at hbefore
        cases hbefore
    · rw [Function.update_of_ne hji]
  refine ⟨hnumbered, fun j hquit => ?_, hstats ▸ h.length_eq, fun j qid hj => ?_,
    fun q hq hnone => ?_⟩
  · rw [hphase] at hquit
    by_cases hji : j = i
    · rw [hji, Function.update_self] at hquit
      rw [hquit] at hp
      cases hp
    · rw [Function.update_of_ne hji] at hquit
      exact h.noQuit j hquit
  · rw [hstats]
    exact h.written j qid ((hfinished j qid).mp hj)
  · rw [hstats]
    exact h.unwritten q hq fun j qid hj => hnone j qid ((hfinished j qid).mpr hj)

/-- A worker that returns with its queue. -/
theorem Launch.Inv.finish {l l' : Launch W args} (h : l.Inv calls) {i : Fin W} {qid : UInt16}
    (hnumbered : ∃ n, Numbered (UInt16.ofNat W) l'.sv n)
    (hphase : l'.sv.phase = Function.update l.sv.phase i (.finished qid))
    (hqueue : (l.sv.phase i).number = some qid) (hlength : l'.stats.length = maxWorkerThreads)
    (hown : l'.stats[qid.toNat]? = some (calls i qid).join)
    (hothers : ∀ q, q ≠ qid.toNat → l'.stats[q]? = l.stats[q]?) : l'.Inv calls := by
  refine ⟨hnumbered, fun j hquit => ?_, hlength, fun j q hj => ?_, fun q hq hnone => ?_⟩
  · rw [hphase] at hquit
    by_cases hji : j = i
    · rw [hji, Function.update_self] at hquit
      cases hquit
    · rw [Function.update_of_ne hji] at hquit
      exact h.noQuit j hquit
  · rw [hphase] at hj
    by_cases hji : j = i
    · rw [hji, Function.update_self] at hj
      cases hj
      rw [hji]
      exact hown
    · rw [Function.update_of_ne hji] at hj
      obtain ⟨n, hn⟩ := h.numbered
      have hne : q.toNat ≠ qid.toNat := by
        intro heq
        have hnumber : (l.sv.phase j).number = some qid := by
          rw [hj, UInt16.toNat_inj.mp heq]
          rfl
        exact hji (hn.distinct j i qid hnumber hqueue)
      rw [hothers _ hne]
      exact h.written j q hj
  · have hne : q ≠ qid.toNat := by
      intro heq
      exact hnone i qid (by rw [hphase, Function.update_self]) heq.symm
    rw [hothers q hne]
    apply h.unwritten q hq
    intro j p hj
    apply hnone j p
    rw [hphase]
    by_cases hji : j = i
    · -- the place is the worker's own
      subst hji
      rw [hj] at hqueue
      rw [Function.update_self, Option.some.inj hqueue]
    · rwa [Function.update_of_ne hji]

/-- Each action of a worker keeps the queues apart, and the statistics at their places. -/
theorem Launch.Inv.step {l l' : Launch W args} (h : l.Inv calls) (hW : W ≤ maxWorkerThreads)
    {i : Fin W} (hstep : l.step calls i = some l') : l'.Inv calls := by
  have hWsmall : W ≤ 32767 := hW.trans (by decide)
  have hWnat : (UInt16.ofNat W).toNat = W := toNat_number hWsmall (Nat.le_refl W)
  obtain ⟨n, hn⟩ := h.numbered
  unfold Launch.step at hstep
  cases hi : l.sv.phase i with
  | launched =>
    simp only [hi] at hstep
    obtain ⟨sv, hsv, rfl⟩ := Option.map_eq_some_iff.mp hstep
    have hnumbered := hn.step hWsmall hsv
    simp only [SharedVars.step, hi, Option.some.injEq] at hsv
    refine h.advance hnumbered (congrArg SharedVars.phase hsv).symm rfl (by rw [hi]; rfl) rfl
  | numbered qid =>
    simp only [hi] at hstep
    obtain ⟨sv, hsv, rfl⟩ := Option.map_eq_some_iff.mp hstep
    have hnumbered := hn.step hWsmall hsv
    have hlt : qid.toNat < W := h.queue_lt (i := i) (by rw [hi]; rfl)
    -- the guard lets every number through
    have hpass : ¬ qid > l.sv.totalQueues := by
      rw [hn.totalQueues_eq, gt_iff_lt, UInt16.lt_iff_toNat_lt]
      omega
    simp only [SharedVars.step, hi, if_neg hpass, Option.some.injEq] at hsv
    exact h.advance hnumbered (congrArg SharedVars.phase hsv).symm rfl (by rw [hi]; rfl) rfl
  | admitted qid =>
    simp only [hi] at hstep
    obtain ⟨sv, hsv, rfl⟩ := Option.map_eq_some_iff.mp hstep
    have hnumbered := hn.step hWsmall hsv
    have hqueue : (l.sv.phase i).number = some qid := by rw [hi]; rfl
    simp only [SharedVars.step, hi, Option.some.injEq] at hsv
    cases hcall : calls i qid with
    | some stats =>
      rw [hcall] at hsv
      exact h.advance hnumbered (congrArg SharedVars.phase hsv).symm rfl (by rw [hi]; rfl) rfl
    | none =>
      rw [hcall] at hsv
      refine h.finish hnumbered (congrArg SharedVars.phase hsv).symm hqueue h.length_eq ?_
        fun _ _ => rfl
      rw [hcall]
      apply h.unwritten _ ((h.queue_lt hqueue).trans_le hW)
      intro j p hj heq
      have hnumber : (l.sv.phase j).number = some qid := by
        rw [hj, UInt16.toNat_inj.mp heq]
        rfl
      rw [hn.distinct j i qid hnumber hqueue, hi] at hj
      cases hj
  | polling qid =>
    simp only [hi] at hstep
    obtain ⟨sv, hsv, rfl⟩ := Option.map_eq_some_iff.mp hstep
    have hnumbered := hn.step hWsmall hsv
    have hqueue : (l.sv.phase i).number = some qid := by rw [hi]; rfl
    simp only [SharedVars.step, hi, Option.some.injEq] at hsv
    refine h.finish hnumbered (congrArg SharedVars.phase hsv).symm hqueue ?_ ?_ fun q hq => ?_
    · rw [List.length_set]
      exact h.length_eq
    · have hlt : qid.toNat < l.stats.length := by
        rw [h.length_eq]
        exact (h.queue_lt hqueue).trans_le hW
      show (l.stats.set qid.toNat _)[qid.toNat]? = _
      rw [List.getElem?_set_self hlt]
    · exact List.getElem?_set_ne (Ne.symm hq)
  | finished qid =>
    simp only [hi, SharedVars.step] at hstep
    cases hstep
  | quit => exact absurd hi (h.noQuit i)

theorem Launch.Inv.of_run (hW : W ≤ maxWorkerThreads) {is : List (Fin W)} {l : Launch W args}
    (hrun : run (Launch.step calls) (Launch.init W args) is = some l) : l.Inv calls :=
  run_invariant (fun _ _ _ h hstep => h.step hW hstep) Launch.Inv.init hrun

/-- When all workers have returned, whatever the order of their actions was, every queue was one
worker's, the places of the queues hold what the workers returned, and the report adds this up as if
the workers stood in their own order. -/
theorem report_eq_of_returned (hW : W ≤ maxWorkerThreads) {is : List (Fin W)} {l : Launch W args}
    (hrun : run (Launch.step calls) (Launch.init W args) is = some l)
    (hreturned : ∀ i, (l.sv.phase i).returned = true) :
    ∃ queue : Equiv.Perm (Fin W),
      (∀ i, l.sv.phase i = .finished (UInt16.ofNat (queue i))) ∧
      l.stats.take W = List.ofFn (fun q => (calls (queue.symm q) (UInt16.ofNat q)).join) ∧
      l.report = statsReport args
        (List.ofFn fun i => (calls i (UInt16.ofNat (queue i))).join) := by
  have hinv := Launch.Inv.of_run hW hrun
  have hfinished (i : Fin W) : ∃ qid, l.sv.phase i = .finished qid := by
    cases hi : l.sv.phase i with
    | finished qid => exact ⟨qid, rfl⟩
    | quit => exact absurd hi (hinv.noQuit i)
    | launched => have := hreturned i; rw [hi] at this; cases this
    | numbered qid => have := hreturned i; rw [hi] at this; cases this
    | admitted qid => have := hreturned i; rw [hi] at this; cases this
    | polling qid => have := hreturned i; rw [hi] at this; cases this
  choose qid hqid using hfinished
  have hnumber (i : Fin W) : (l.sv.phase i).number = some (qid i) := by
    rw [hqid i]
    rfl
  have hinjective : Function.Injective fun i =>
      (⟨(qid i).toNat, hinv.queue_lt (hnumber i)⟩ : Fin W) := by
    intro i j heq
    obtain ⟨n, hn⟩ := hinv.numbered
    have hnat : (qid i).toNat = (qid j).toNat := Fin.mk.inj heq
    have hsame : qid i = qid j := UInt16.toNat_inj.mp hnat
    exact hn.distinct i j (qid i) (hnumber i) (hsame ▸ hnumber j)
  -- as many numbers below `W` as workers: the order is a permutation
  let queue := Equiv.ofBijective _ (Finite.injective_iff_bijective.mp hinjective)
  have hqueue (i : Fin W) : UInt16.ofNat (queue i) = qid i := UInt16.ofNat_toNat
  have hstats : l.stats.take W =
      List.ofFn fun q => (calls (queue.symm q) (UInt16.ofNat q)).join := by
    apply List.ext_getElem?
    intro q
    rw [List.getElem?_take, List.getElem?_ofFn]
    by_cases hq : q < W
    · rw [if_pos hq, dif_pos hq]
      have hplace := hinv.written _ _ (hqid (queue.symm ⟨q, hq⟩))
      rw [← hqueue, Equiv.apply_symm_apply] at hplace
      rwa [toNat_number (hW.trans (by decide)) hq.le] at hplace
    · rw [if_neg hq, dif_neg hq]
  refine ⟨queue, fun i => by rw [hqid, hqueue], hstats, ?_⟩
  rw [Launch.report, hstats]
  -- the sums do not see the order
  apply statsReport_perm
  have hperm := Equiv.Perm.ofFn_comp_perm queue
    fun q => (calls (queue.symm q) (UInt16.ofNat q)).join
  refine hperm.symm.trans ?_
  have hsymm : (fun q => (calls (queue.symm q) (UInt16.ofNat q)).join) ∘ queue =
      fun i => (calls i (UInt16.ofNat (queue i))).join := by
    funext i
    show (calls (queue.symm (queue i)) _).join = _
    rw [Equiv.symm_apply_apply]
  rw [hsymm]

/-- The set-up of the first worker fails; the second one scans a packet. -/
def oneWorker : Calls 2 ⟨true, true, false, 0, 4, 1, 64, 0⟩ := fun i _ =>
  if i = 0 then none else some (some ⟨none, some ⟨1, 5, 10, 3⟩, some ⟨4, 30⟩⟩)

/-- The second worker takes the first queue. -/
theorem report_eq_of_returned_oneWorker :
    ∃ l, run (Launch.step oneWorker) (Launch.init 2 _) [1, 0, 0, 1, 1, 0, 1] = some l ∧
      ∃ queue : Equiv.Perm (Fin 2),
        l.report = statsReport _
          (List.ofFn fun i => (oneWorker i (UInt16.ofNat (queue i))).join) := by
  obtain ⟨queue, -, -, hreport⟩ := report_eq_of_returned (by decide)
    (rfl : run (Launch.step oneWorker) (Launch.init 2 _) [1, 0, 0, 1, 1, 0, 1] = some _) (by decide)
  exact ⟨_, rfl, queue, hreport⟩

end RegexTest
end PamoRxpBench
