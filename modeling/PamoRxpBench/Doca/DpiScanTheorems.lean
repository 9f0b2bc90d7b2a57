import PamoRxpBench.Doca.DpiScan

/-!
# What `dpi_scan` releases

The clean-up of `doca_dpi_worker_init` is one queue off: it leaves the last attached queue, and when
a queue cannot be added it destroys the queue before. So a call that fails releases what it made if
and only if it made no queue (`docaDpiWorkerInit_releases`). `dpi_scan` has only one queue; it
uses what it holds, and releases everything unless this queue cannot be added (`dpiScan_releases`).
-/

namespace PamoRxpBench
namespace Doca

open Lifecycle Runs

variable {d : DpiAnswers}

/-- The first `n` queues are created and added. -/
def DpiAnswers.Attaches (d : DpiAnswers) (n : ℕ) : Prop :=
  ∀ i < n, d.workqCreate i = true ∧ d.workqAdd i = true

/-! ## The loop over the queues -/

/-- What the loop does for the first `n` queues. -/
def attachCalls (n : ℕ) : List (Act DpiResource) :=
  (List.range n).flatMap fun i => [.acquire (.workq i), .acquire (.attached i)]

theorem attachCalls_succ (n : ℕ) :
    attachCalls (n + 1) = attachCalls n ++ [.acquire (.workq n), .acquire (.attached n)] := by
  unfold attachCalls
  rw [List.range_succ, List.flatMap_append, List.flatMap_singleton]

/-- Where the loop is after `n` turns. -/
inductive LoopAt (d : DpiAnswers) (n : ℕ) : WorkqLoop → Prop
  | going : n ≤ maxWorkqNum → d.Attaches n → LoopAt d n ⟨.going, n, attachCalls n⟩
  | workqCreateFail {k : ℕ} : k < n → k ≤ maxWorkqNum → d.Attaches k → d.workqCreate k = false →
      LoopAt d n ⟨.workqCreateFail, k, attachCalls k⟩
  | workqAddFail {k : ℕ} : k < n → k < maxWorkqNum → d.Attaches k → d.workqCreate k = true →
      d.workqAdd k = false →
      LoopAt d n ⟨.workqAddFail, k,
        attachCalls k ++ [.acquire (.workq k), .use .started, .use (.workq k)]⟩
  | outOfBounds : maxWorkqNum < n → d.Attaches maxWorkqNum → d.workqCreate maxWorkqNum = true →
      LoopAt d n ⟨.outOfBounds, maxWorkqNum, attachCalls maxWorkqNum⟩

/-- A turn makes and attaches one more queue, or it stops. -/
theorem LoopAt.turn {n : ℕ} {l : WorkqLoop} (h : LoopAt d n l) : LoopAt d (n + 1) (l.turn d n) := by
  unfold WorkqLoop.turn
  cases h with
  | going hn hattaches =>
    rw [if_neg (not_not_intro rfl)]
    cases hcreate : d.workqCreate n with
    | false => exact .workqCreateFail (Nat.lt_succ_self n) hn hattaches hcreate
    | true =>
      by_cases hmax : maxWorkqNum ≤ n
      · obtain rfl : n = maxWorkqNum := by omega
        exact .outOfBounds (by omega) hattaches hcreate
      · rw [if_neg Bool.noConfusion, if_neg hmax]
        cases hadd : d.workqAdd n with
        | false => exact .workqAddFail (Nat.lt_succ_self n) (not_le.mp hmax) hattaches hcreate hadd
        | true =>
          have hall : d.Attaches (n + 1) := by
            intro i hi
            by_cases hlt : i < n
            · exact hattaches i hlt
            · obtain rfl : i = n := by omega
              exact ⟨hcreate, hadd⟩
          have hgoing := LoopAt.going (d := d) (n := n + 1) (by omega) hall
          rw [attachCalls_succ] at hgoing
          exact hgoing
  | workqCreateFail hk hmax hattaches hcreate =>
    exact .workqCreateFail (by omega) hmax hattaches hcreate
  | workqAddFail hk hmax hattaches hcreate hadd =>
    exact .workqAddFail (by omega) hmax hattaches hcreate hadd
  | outOfBounds hn hattaches hcreate => exact .outOfBounds (by omega) hattaches hcreate

theorem loopAt_workqLoop (d : DpiAnswers) (n : ℕ) : LoopAt d n (workqLoop d n) := by
  induction n with
  | zero => exact .going (Nat.zero_le _) fun i hi => absurd hi (Nat.not_lt_zero i)
  | succ n ih => exact ih.turn

/-! ## What is held -/

/-- What the first `n` queues are, in the order in which they are released. -/
def queues (n : ℕ) : List DpiResource := (List.range n).flatMap fun i => [.attached i, .workq i]

/-- What is released for the first `n` queues and the instance, in this order. -/
def destroyed (n : ℕ) : List DpiResource := queues n ++ [.started, .dpiCtx]

theorem queues_succ (n : ℕ) : queues (n + 1) = queues n ++ [.attached n, .workq n] := by
  unfold queues
  rw [List.range_succ, List.flatMap_append, List.flatMap_singleton]

theorem release_queues (n : ℕ) :
    ((List.range n).flatMap fun i => [Act.release (.attached i), .release (.workq i)]) =
      (queues n).map Act.release := by
  unfold queues
  rw [List.map_flatMap]
  rfl

theorem docaDpiWorkerDestroy_eq (n : ℕ) :
    docaDpiWorkerDestroy n = (destroyed n).map .release := by
  unfold docaDpiWorkerDestroy destroyed
  rw [release_queues, List.map_append]
  rfl

theorem mem_destroyed {n : ℕ} {r : DpiResource} :
    r ∈ destroyed n ↔ (∃ i < n, r = .attached i ∨ r = .workq i) ∨ r = .started ∨ r = .dpiCtx := by
  simp [destroyed, queues]

theorem destroyed_succ (n : ℕ) :
    destroyed (n + 1) = queues n ++ [.attached n, .workq n, .started, .dpiCtx] := by
  unfold destroyed
  rw [queues_succ, List.append_assoc]
  rfl

theorem not_mem_needs (r : DpiResource) : r ∉ r.needs := by cases r <;> simp [DpiResource.needs]

/-- Nothing is released before what needs it. -/
theorem pairwise_destroyed (n : ℕ) : (destroyed n).Pairwise fun r q => r ∉ q.needs := by
  unfold destroyed queues
  rw [List.pairwise_append, List.pairwise_flatMap]
  refine ⟨⟨fun i _ => ?_, ?_⟩, ?_, ?_⟩
  · simp [DpiResource.needs]
  · refine (List.nodup_range (n := n)).imp fun {i j} hij r hr q hq => ?_
    -- a queue of another place
    rcases List.mem_pair.mp hr with rfl | rfl <;> rcases List.mem_pair.mp hq with rfl | rfl <;>
      simp [DpiResource.needs, hij]
  · simp [DpiResource.needs]
  · intro r hr q hq
    obtain ⟨i, _, hr⟩ := List.mem_flatMap.mp hr
    rcases List.mem_pair.mp hr with rfl | rfl <;> rcases List.mem_pair.mp hq with rfl | rfl <;>
      simp [DpiResource.needs]

theorem mem_configureCalls {answers : List Bool} {a : Act DpiResource}
    (h : a ∈ configureCalls answers) : a = .use .dpiCtx := by
  induction answers with
  | nil => exact absurd h List.not_mem_nil
  | cons ok answers ih =>
    rw [configureCalls] at h
    rcases List.mem_cons.mp h with h | h
    · exact h
    · cases ok with
      | false => exact absurd h List.not_mem_nil
      | true => exact ih h

/-- The instance is held once it is configured. -/
theorem run_startCalls (d : DpiAnswers) (calls : List (Act DpiResource)) :
    run (step DpiResource.needs) [] (d.startCalls ++ calls) =
      run (step DpiResource.needs) [.dpiCtx] calls := by
  have huses : run (step DpiResource.needs) [DpiResource.dpiCtx]
      (configureCalls d.configuration) = some [.dpiCtx] :=
    run_uses fun _ ha => ⟨.dpiCtx, List.mem_cons_self, mem_configureCalls ha⟩
  rw [DpiAnswers.startCalls, List.cons_append, run_cons]
  show run _ [DpiResource.dpiCtx] _ = _
  rw [run_append, huses, Option.bind_some]

/-- After the calls of `n` turns `n` queues are attached. -/
theorem run_attachCalls (n : ℕ) :
    ∃ held, run (step DpiResource.needs) [.dpiCtx] (.acquire .started :: attachCalls n) =
      some held ∧
      held.Perm (destroyed n) := by
  induction n with
  | zero => exact ⟨_, rfl, List.Perm.refl _⟩
  | succ n ih =>
    obtain ⟨held, hrun, hheld⟩ := ih
    have hnew : DpiResource.workq n ∉ held ∧ DpiResource.attached n ∉ held := by
      rw [hheld.mem_iff, hheld.mem_iff, mem_destroyed, mem_destroyed]
      simp
    have hstarted : DpiResource.started ∈ held :=
      hheld.mem_iff.mpr (mem_destroyed.mpr (Or.inr (Or.inl rfl)))
    refine ⟨.attached n :: .workq n :: held, ?_, ?_⟩
    · rw [attachCalls_succ, ← List.cons_append, run_append, hrun, Option.bind_some, run_cons,
        step_acquire hnew.1 (by simp [DpiResource.needs]), Option.bind_some, run_cons, step_acquire]
      · rfl
      · simp [hnew.2]
      · simp [DpiResource.needs, hstarted]
    · rw [destroyed_succ]
      exact ((hheld.cons _).cons _).trans (List.perm_append_comm_assoc [_, _] _ _)

/-! ## Clean-ups that are one queue off -/

/-- At some call the instance is stopped, or a queue destroyed, while this queue is attached. -/
def ReleasesAttached (calls : List (Act DpiResource)) : Prop :=
  ∃ before r after held i, calls = before ++ .release r :: after ∧
    run (step DpiResource.needs) [] before = some held ∧ .attached i ∈ held ∧
    (r = .started ∨ r = .workq i)

/-- The calls cannot all be made. -/
theorem ReleasesAttached.run_eq_none {calls : List (Act DpiResource)} (h : ReleasesAttached calls) :
    run (step DpiResource.needs) [] calls = none := by
  obtain ⟨before, r, after, held, i, rfl, hrun, hattached, hr⟩ := h
  have hneeds : r ∈ (DpiResource.attached i).needs := by
    rcases hr with rfl | rfl <;> simp [DpiResource.needs]
  rw [run_append, hrun, Option.bind_some, run_cons, step_release_eq_none hattached hneeds]
  rfl

/-- The queues that the clean-up removes are those before the last one. -/
theorem releasesAttached_workqCreateFail (d : DpiAnswers) (k : ℕ) :
    ReleasesAttached
      (d.startCalls ++ .acquire .started :: (attachCalls (k + 1) ++ workqCreateFail (k + 1))) := by
  obtain ⟨held, hrun, hheld⟩ := run_attachCalls (k + 1)
  have horder := pairwise_destroyed (k + 1)
  rw [destroyed_succ] at hheld horder
  obtain ⟨hqueues, -, hbelow⟩ := List.pairwise_append.mp horder
  obtain ⟨held', hrun', hheld'⟩ :=
    run_release_append hheld hqueues (fun r _ => not_mem_needs r) hbelow
  refine ⟨d.startCalls ++ (.acquire .started :: attachCalls (k + 1) ++ (queues k).map .release),
    .started, [.release .dpiCtx], held', k, ?_, ?_, hheld'.mem_iff.mpr List.mem_cons_self, .inl rfl⟩
  · rw [workqCreateFail, release_queues]
    simp
  · rw [run_startCalls, run_append, hrun]
    exact hrun'

/-- Or the queue before the one that cannot be added is destroyed first. -/
theorem releasesAttached_workqAddFail (d : DpiAnswers) (k : ℕ) :
    ReleasesAttached (d.startCalls ++ .acquire .started :: (attachCalls (k + 1) ++
      [.acquire (.workq (k + 1)), .use .started, .use (.workq (k + 1))] ++
        (workqAddFail (k + 1)).2)) := by
  obtain ⟨held, hrun, hheld⟩ := run_attachCalls (k + 1)
  have hnew : DpiResource.workq (k + 1) ∉ held := by
    rw [hheld.mem_iff, mem_destroyed]
    simp
  have hstarted : DpiResource.started ∈ held :=
    hheld.mem_iff.mpr (mem_destroyed.mpr (Or.inr (Or.inl rfl)))
  have hattached : DpiResource.attached k ∈ held :=
    hheld.mem_iff.mpr (mem_destroyed.mpr (Or.inl ⟨k, Nat.lt_succ_self k, Or.inl rfl⟩))
  refine ⟨d.startCalls ++ (.acquire .started :: attachCalls (k + 1) ++
      [.acquire (.workq (k + 1)), .use .started, .use (.workq (k + 1))]),
    .workq k, workqCreateFail (k + 1), .workq (k + 1) :: held, k, ?_, ?_,
    List.mem_cons_of_mem _ hattached, .inr rfl⟩
  · simp [workqAddFail]
  · rw [run_startCalls, run_append, hrun, Option.bind_some, run_cons,
      step_acquire hnew (by simp [DpiResource.needs]), Option.bind_some, run_cons,
      step_use (List.mem_cons_of_mem _ hstarted), Option.bind_some, run_cons,
      step_use List.mem_cons_self]
    rfl

/-! ## `doca_dpi_worker_init` -/

/-- No queue is made. -/
def DpiAnswers.Queueless (d : DpiAnswers) : Prop :=
  d.dpiCreate = false ∨ d.configured = false ∨ d.workqCreate 0 = false

/-- A place outside of the array is used: the one before the first queue, when it cannot be added,
or the one behind the last queue, when one more is created. -/
def DpiAnswers.LeavesArray (d : DpiAnswers) (n : ℕ) : Prop :=
  (0 < n ∧ d.workqCreate 0 = true ∧ d.workqAdd 0 = false) ∨
    (maxWorkqNum < n ∧ d.Attaches maxWorkqNum ∧ d.workqCreate maxWorkqNum = true)

/-- The loop stopped at queue `k`. -/
theorem DpiAnswers.Attaches.leavesArray_iff {n k : ℕ} (hattaches : d.Attaches k) (hk : k < n)
    (hmax : k ≤ maxWorkqNum)
    (hfail : d.workqCreate k = false ∨ k < maxWorkqNum ∧ d.workqAdd k = false) :
    d.LeavesArray n ↔ k = 0 ∧ d.workqCreate 0 = true := by
  constructor
  · intro h
    rcases h with ⟨_, hcreate, hadd⟩ | ⟨_, hall, hlast⟩
    · refine ⟨Nat.eq_zero_of_not_pos fun hpos => ?_, hcreate⟩
      rw [(hattaches 0 hpos).2] at hadd
      cases hadd
    · rcases hfail with hfail | ⟨hlt, hfail⟩
      · rcases hmax.lt_or_eq with hlt | rfl
        · rw [(hall k hlt).1] at hfail
          cases hfail
        · rw [hlast] at hfail
          cases hfail
      · rw [(hall k hlt).2] at hfail
        cases hfail
  · rintro ⟨rfl, hcreate⟩
    refine Or.inl ⟨hk, hcreate, ?_⟩
    rcases hfail with hfail | ⟨-, hfail⟩
    · rw [hcreate] at hfail
      cases hfail
    · exact hfail

/-- What the calls of `doca_dpi_worker_init` do. -/
structure InitSpec (d : DpiAnswers) (n : ℕ) (r : DpiExit × List (Act DpiResource)) : Prop where
  success : r.1 = .success →
    run (step DpiResource.needs) [] (r.2 ++ docaDpiWorkerDestroy n) = some []
  failed : r.1 = .failed → (run (step DpiResource.needs) [] r.2 = some [] ↔ d.Queueless)
  attached : r.1 = .failed → ¬ d.Queueless → ReleasesAttached r.2
  outOfBounds : r.1 = .outOfBounds ↔
    d.dpiCreate = true ∧ d.configured = true ∧ d.LeavesArray n

/-- A failure behind the first queue. -/
theorem initSpec_of_releasesAttached {n : ℕ} {calls : List (Act DpiResource)}
    (hqueue : ¬ d.Queueless) (hin : ¬ d.LeavesArray n) (h : ReleasesAttached calls) :
    InitSpec d n (.failed, calls) := by
  refine ⟨fun h => (by cases h), fun _ => iff_of_false ?_ hqueue, fun _ _ => h,
    iff_of_false DpiExit.noConfusion fun hout => hin hout.2.2⟩
  exact ne_of_eq_of_ne h.run_eq_none (Option.some_ne_none _).symm

/-- A failure before the first queue. -/
theorem initSpec_of_queueless {n : ℕ} {calls : List (Act DpiResource)} (hqueueless : d.Queueless)
    (h : run (step DpiResource.needs) [] calls = some []) : InitSpec d n (.failed, calls) := by
  refine ⟨fun h => (by cases h), fun _ => iff_of_true h hqueueless,
    fun _ hqueue => absurd hqueueless hqueue, iff_of_false DpiExit.noConfusion ?_⟩
  rintro ⟨hcreate, hconf, hleaves⟩
  have hfirst : d.workqCreate 0 = true := by
    rcases hleaves with ⟨-, hfirst, -⟩ | ⟨-, hall, -⟩
    · exact hfirst
    · exact (hall 0 (by decide)).1
  rw [DpiAnswers.Queueless, hcreate, hconf, hfirst] at hqueueless
  exact absurd hqueueless (by decide)

/-- What the calls do can be told from where the loop stopped. -/
theorem initSpec_of_loopAt {n : ℕ} {l : WorkqLoop} (hloop : LoopAt d n l)
    (hcreate : d.dpiCreate = true) (hconf : d.configured = true) :
    InitSpec d n (l.finish.1, d.startCalls ++ .acquire .started :: l.finish.2) := by
  have hstarted (q : Prop) : d.dpiCreate = true ∧ d.configured = true ∧ q ↔ q := by
    rw [hcreate, hconf]
    simp
  have hqueue : d.workqCreate 0 = true → ¬ d.Queueless := by
    intro hfirst
    rw [DpiAnswers.Queueless, hcreate, hconf, hfirst]
    decide
  cases hloop with
  | going hn hattaches =>
    refine ⟨fun _ => ?_, fun h => (by cases h), fun h => (by cases h), ?_⟩
    · -- all queues are attached, and the release of the instance takes them back
      obtain ⟨held, hrun, hheld⟩ := run_attachCalls n
      show run _ _ ((d.startCalls ++ .acquire .started :: attachCalls n) ++ _) = _
      rw [List.append_assoc, run_startCalls, run_append, hrun, Option.bind_some,
        docaDpiWorkerDestroy_eq]
      exact run_release hheld (pairwise_destroyed n) fun r _ => not_mem_needs r
    · rw [hstarted]
      refine iff_of_false DpiExit.noConfusion fun h => ?_
      rcases h with ⟨hpos, _, hadd⟩ | ⟨hlt, _⟩
      · rw [(hattaches 0 hpos).2] at hadd
        cases hadd
      · omega
  | @workqCreateFail k hk hmax hattaches hfail =>
    cases k with
    | zero =>
      apply initSpec_of_queueless (.inr (.inr hfail))
      rw [run_startCalls]
      rfl
    | succ k =>
      apply initSpec_of_releasesAttached (hqueue (hattaches 0 (Nat.succ_pos k)).1)
      · rw [hattaches.leavesArray_iff hk hmax (.inl hfail)]
        exact fun h => Nat.succ_ne_zero k h.1
      · exact releasesAttached_workqCreateFail d k
  | @workqAddFail k hk hmax hattaches hcreated hfail =>
    cases k with
    | zero =>
      refine ⟨fun h => (by cases h), fun h => (by cases h), fun h => (by cases h), ?_⟩
      rw [hstarted, hattaches.leavesArray_iff hk hmax.le (.inr ⟨hmax, hfail⟩)]
      exact iff_of_true rfl ⟨rfl, hcreated⟩
    | succ k =>
      apply initSpec_of_releasesAttached (hqueue (hattaches 0 (Nat.succ_pos k)).1)
      · rw [hattaches.leavesArray_iff hk hmax.le (.inr ⟨hmax, hfail⟩)]
        exact fun h => Nat.succ_ne_zero k h.1
      · exact releasesAttached_workqAddFail d k
  | outOfBounds hn hattaches hcreated =>
    refine ⟨fun h => (by cases h), fun h => (by cases h), fun h => (by cases h), ?_⟩
    rw [hstarted]
    exact iff_of_true rfl (Or.inr ⟨hn, hattaches, hcreated⟩)

/-- **A set-up that fails leaks its queues.** Take any number of queues, and let anything fail.
After a call of `doca_dpi_worker_init` that succeeds, `doca_dpi_worker_destroy` releases everything.
A call that fails has released what it made if and only if the instance was not started or the first
queue not created; else it stops the instance, or destroys a queue, while this queue is attached. It
leaves the array if and only if the first queue is created and not added, or 16 queues are attached
and one more is created. -/
theorem docaDpiWorkerInit_releases (d : DpiAnswers) (nbWorkq : UInt8) :
    InitSpec d nbWorkq.toNat (docaDpiWorkerInit d nbWorkq) := by
  unfold docaDpiWorkerInit
  cases hcreate : d.dpiCreate with
  | false => exact initSpec_of_queueless (.inl hcreate) rfl
  | true =>
    cases hconf : d.configured with
    | false =>
      apply initSpec_of_queueless (.inr (.inl hconf))
      rw [run_startCalls]
      rfl
    | true => exact initSpec_of_loopAt (loopAt_workqLoop d nbWorkq.toNat) hcreate hconf

/-! ## `dpi_scan` -/

/-- What is held behind `doca_dpi_worker_init` for one queue. -/
def scanHeld : List DpiResource := [.attached 0, .workq 0, .started, .dpiCtx]

/-- The calls for one queue. -/
inductive InitOne (d : DpiAnswers) : DpiExit × List (Act DpiResource) → Prop
  | failed {calls : List (Act DpiResource)} :
      d.Queueless → run (step DpiResource.needs) [] calls = some [] → InitOne d (.failed, calls)
  | outOfBounds {calls : List (Act DpiResource)} : d.dpiCreate = true → d.configured = true →
      d.workqCreate 0 = true → d.workqAdd 0 = false →
      run (step DpiResource.needs) [] calls = some [.workq 0, .started, .dpiCtx] →
      InitOne d (.outOfBounds, calls)
  | success {calls : List (Act DpiResource)} : d.workqAdd 0 = true →
      run (step DpiResource.needs) [] calls = some scanHeld → InitOne d (.success, calls)

/-- With one queue. -/
theorem initOne (d : DpiAnswers) : InitOne d (docaDpiWorkerInit d 1) := by
  unfold docaDpiWorkerInit
  cases hcreate : d.dpiCreate with
  | false => exact .failed (.inl hcreate) rfl
  | true =>
    cases hconf : d.configured with
    | false =>
      apply InitOne.failed (.inr (.inl hconf))
      rw [run_startCalls]
      rfl
    | true =>
      have hloop := loopAt_workqLoop d 1
      show InitOne d ((workqLoop d 1).finish.1, _ ++ _ :: (workqLoop d 1).finish.2)
      generalize workqLoop d 1 = l at hloop
      cases hloop with
      | going _ hattaches =>
        apply InitOne.success (hattaches 0 Nat.one_pos).2
        rw [run_startCalls]
        rfl
      | @workqCreateFail k hk _ _ hfail =>
        obtain rfl : k = 0 := by omega
        apply InitOne.failed (.inr (.inr hfail))
        rw [run_startCalls]
        rfl
      | @workqAddFail k hk _ _ hcreated hfail =>
        obtain rfl : k = 0 := by omega
        apply InitOne.outOfBounds hcreate hconf hcreated hfail
        rw [run_startCalls]
        rfl
      | outOfBounds hn _ _ => exact absurd hn (by decide)

/-- A call that uses what is held while the job is under way. -/
def UsesScan (a : Act DpiResource) : Prop := ∃ r ∈ DpiResource.flowCtx :: scanHeld, a = .use r

/-- However often a job is submitted, only the queue and the flow are used. -/
theorem usesScan_submitJob {submits : List Submit} {a : Act DpiResource}
    (h : a ∈ (submitJob submits).2) : UsesScan a := by
  have hcalls : ∀ a : Act DpiResource, a ∈ [Act.use (.attached 0), .use .flowCtx] → UsesScan a := by
    intro a ha
    rcases List.mem_pair.mp ha with rfl | rfl
    · exact ⟨.attached 0, by decide, rfl⟩
    · exact ⟨.flowCtx, by decide, rfl⟩
  induction submits with
  | nil => exact absurd h List.not_mem_nil
  | cons answer submits ih =>
    cases answer with
    | success => exact hcalls a h
    | noMemory =>
      rcases List.mem_append.mp h with h | h
      · exact hcalls a h
      · exact ih h
    | failed => exact hcalls a h

theorem usesScan_retrieveJob {getSignature : Bool} {retrieves : List Retrieve}
    {a : Act DpiResource} (h : a ∈ (retrieveJob getSignature retrieves).2) : UsesScan a := by
  have hqueue : UsesScan (.use (.attached 0)) := ⟨.attached 0, by decide, rfl⟩
  induction retrieves with
  | nil => exact absurd h List.not_mem_nil
  | cons answer retrieves ih =>
    cases answer with
    | success matched =>
      rcases List.mem_cons.mp h with rfl | h
      · exact hqueue
      · cases matched with
        | false => exact absurd h List.not_mem_nil
        | true => exact ⟨.dpiCtx, by decide, List.mem_singleton.mp h⟩
    | again =>
      rcases List.mem_cons.mp h with rfl | h
      · exact hqueue
      · exact ih h
    | failed =>
      rw [List.mem_singleton.mp h]
      exact hqueue

/-- However often the job is submitted again and waited for. -/
theorem usesScan_job {s : ScanAnswers} {a : Act DpiResource} (h : a ∈ s.job.2) : UsesScan a := by
  have hsubmit (ha : a ∈ (submitJob s.submits).2) : UsesScan a := usesScan_submitJob ha
  unfold ScanAnswers.job at h
  split at h
  · rename_i calls hcalls
    rw [hcalls] at hsubmit
    rcases List.mem_append.mp h with h | h
    · exact hsubmit h
    · rcases List.mem_append.mp h with h | h
      · exact usesScan_retrieveJob h
      · split at h
        · exact ⟨.dpiCtx, by decide, List.mem_singleton.mp h⟩
        · exact absurd h List.not_mem_nil
  · rename_i answer calls _ hcalls
    rw [hcalls] at hsubmit
    exact hsubmit h

/-- **`dpi_scan` uses what it holds, and releases what it makes.** Whatever DOCA answers, and
however often the job is submitted again and waited for, the calls that were made can be made in
this order, and they have released everything if and only if the function returned. It leaves the
array `workq` instead of returning if and only if the one queue is created and cannot be added. -/
theorem dpiScan_releases (a : ScanAnswers) :
    (∃ held, run (step DpiResource.needs) [] (dpiScan a).2 = some held) ∧
      (run (step DpiResource.needs) [] (dpiScan a).2 = some [] ↔
        (dpiScan a).1 = some .success ∨ (dpiScan a).1 = some .failed) ∧
      ((dpiScan a).1 = some .outOfBounds ↔
        a.init.dpiCreate = true ∧ a.init.configured = true ∧ a.init.workqCreate 0 = true ∧
          a.init.workqAdd 0 = false) := by
  have hjob : run (step DpiResource.needs) (.flowCtx :: scanHeld) a.job.2 =
      some (.flowCtx :: scanHeld) :=
    run_uses fun _ h => usesScan_job h
  unfold dpiScan
  have hinit := initOne a.init
  generalize docaDpiWorkerInit a.init 1 = init at hinit
  cases hinit with
  | failed hfails hrun =>
    refine ⟨⟨_, hrun⟩, iff_of_true hrun (Or.inr rfl), iff_of_false (by simp) fun h => ?_⟩
    rw [DpiAnswers.Queueless, h.1, h.2.1, h.2.2.1] at hfails
    exact absurd hfails (by decide)
  | outOfBounds hcreate hconf hcreated hfail hrun =>
    refine ⟨⟨_, hrun⟩, iff_of_false (fun h => ?_) (by simp),
      iff_of_true rfl ⟨hcreate, hconf, hcreated, hfail⟩⟩
    exact absurd (hrun.symm.trans h) (by decide)
  | @success calls hadd hrun =>
    have hin : ¬ (a.init.dpiCreate = true ∧ a.init.configured = true ∧
        a.init.workqCreate 0 = true ∧ a.init.workqAdd 0 = false) := by
      rw [hadd]
      simp
    cases a.flowCreate with
    | false =>
      have hreleased : run (step DpiResource.needs) []
          (calls ++ .use (.attached 0) :: docaDpiWorkerDestroy 1) = some [] := by
        rw [run_append, hrun]
        rfl
      exact ⟨⟨_, hreleased⟩, iff_of_true hreleased (Or.inr rfl), iff_of_false (by simp) hin⟩
    | true =>
      have hflow : run (step DpiResource.needs) [] (calls ++ .acquire .flowCtx :: a.job.2) =
          some (.flowCtx :: scanHeld) := by
        rw [run_append, hrun]
        exact hjob
      -- the job is waited for without end, or it ends
      cases a.job.1 with
      | none =>
        refine ⟨⟨_, hflow⟩, iff_of_false (fun h => ?_) (by simp), iff_of_false (by simp) hin⟩
        exact absurd (hflow.symm.trans h) (by decide)
      | some ok =>
        have hreleased : run (step DpiResource.needs) []
            (calls ++ .acquire .flowCtx :: a.job.2 ++
              .release .flowCtx :: docaDpiWorkerDestroy 1) = some [] := by
          rw [run_append, hflow]
          rfl
        refine ⟨⟨_, hreleased⟩, iff_of_true hreleased ?_, iff_of_false ?_ hin⟩
        · cases ok with
          | false => exact Or.inr rfl
          | true => exact Or.inl rfl
        · cases ok <;> simp

end Doca
end PamoRxpBench
