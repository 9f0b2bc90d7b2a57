import PamoRxpBench.RegexTest.WorkerRun
import Mathlib.Data.Fintype.Card

/-!
# Exclusive queues

The counter hands out the numbers `0, 1, …` in the order of the increments (`Numbered`). The guard
lets the number `total_queues` through, and nothing bounds the numbers by the length of the arrays:
so the queues are exclusive and in range in every run exactly when there are no more workers than
queues, and no more than `MAX_WORKER_THREADS` (`exclusive_iff`).
-/

namespace PamoRxpBench
namespace RegexTest

open Runs

/-- The number a worker was given, if it was given one. -/
def WorkerPhase.number : WorkerPhase → Option UInt16
  | .numbered qid => some qid
  | p => p.queue

theorem WorkerPhase.number_of_queue {p : WorkerPhase} {qid : UInt16} (h : p.queue = some qid) :
    p.number = some qid := by
  cases p with
  | launched => cases h
  | numbered q => cases h
  | quit => cases h
  | admitted q => exact h
  | polling q => exact h
  | finished q => exact h

/-- The number the increment returns when the counter was `n`. -/
theorem toUInt16_add_sub (n : ℕ) : (Int16.ofNat n + 1).toUInt16 - 1 = UInt16.ofNat n := by
  have hadd : (Int16.ofNat n + 1).toUInt16 = UInt16.ofNat n + 1 := rfl
  rw [hadd, UInt16.add_sub_cancel]

theorem int16_ofNat_succ (n : ℕ) : Int16.ofNat n + 1 = Int16.ofNat (n + 1) := by
  rw [Int16.ofNat_add]
  rfl

theorem toNat_number {n W : ℕ} (hW : W ≤ 32767) (hn : n ≤ W) : (UInt16.ofNat n).toNat = n := by
  apply UInt16.toNat_ofNat_of_lt'
  show n < 65536
  omega

variable {W : ℕ} {totalQueues : UInt16}

/-- The workers that have not incremented the counter yet. -/
def SharedVars.waiting (sv : SharedVars W) : Finset (Fin W) :=
  Finset.univ.filter fun i => sv.phase i = .launched

/-- A worker that is past `launched` does not wait. -/
theorem SharedVars.waiting_update {sv sv' : SharedVars W} {i : Fin W} {p : WorkerPhase}
    (hp : p ≠ .launched) (hphase : sv'.phase = Function.update sv.phase i p) :
    sv'.waiting = sv.waiting.erase i := by
  ext j
  by_cases hji : j = i
  · simp [waiting, hphase, hji, hp]
  · simp [waiting, hphase, hji]

/-- The phase of a worker after a step of one of them. -/
theorem phase_update (phase : Fin W → WorkerPhase) (i j : Fin W) (p : WorkerPhase) :
    (j = i ∧ Function.update phase i p j = p) ∨
      (j ≠ i ∧ Function.update phase i p j = phase j) := by
  by_cases hji : j = i
  · subst hji
    left
    exact ⟨rfl, Function.update_self j p phase⟩
  · right
    exact ⟨hji, Function.update_of_ne hji p phase⟩

/-- What holds when the counter has been incremented `n` times. -/
structure Numbered (totalQueues : UInt16) (sv : SharedVars W) (n : ℕ) : Prop where
  totalQueues_eq : sv.totalQueues = totalQueues
  wqId : sv.wqId = Int16.ofNat n
  waiting : sv.waiting.card + n = W
  lt : ∀ i qid, (sv.phase i).number = some qid → qid.toNat < n
  distinct : ∀ i j qid, (sv.phase i).number = some qid → (sv.phase j).number = some qid → i = j
  guarded : ∀ i qid, (sv.phase i).queue = some qid → qid ≤ totalQueues
  accessed : ∀ a ∈ sv.accesses, (sv.phase a.1).queue = some a.2

theorem Numbered.init (W : ℕ) (totalQueues : UInt16) :
    Numbered totalQueues (SharedVars.init W totalQueues) 0 where
  totalQueues_eq := rfl
  wqId := rfl
  waiting := by simp [SharedVars.waiting, SharedVars.init]
  lt := fun _ _ h => by cases h
  distinct := fun _ _ _ h => by cases h
  guarded := fun _ _ h => by cases h
  accessed := fun _ h => by cases h

/-- A worker that leaves the phase `launched` takes the number of the increment. -/
theorem Numbered.increment {sv : SharedVars W} {n : ℕ} (h : Numbered totalQueues sv n)
    (hW : W ≤ 32767) {i : Fin W} (hi : sv.phase i = .launched) :
    Numbered totalQueues { sv with
      wqId := sv.wqId + 1
      phase := Function.update sv.phase i (.numbered ((sv.wqId + 1).toUInt16 - 1)) } (n + 1) := by
  have hmem : i ∈ sv.waiting := Finset.mem_filter.mpr ⟨Finset.mem_univ i, hi⟩
  have hpos : 0 < sv.waiting.card := Finset.card_pos.mpr ⟨i, hmem⟩
  have hcard := h.waiting
  have hqid : (sv.wqId + 1).toUInt16 - 1 = UInt16.ofNat n := by
    rw [h.wqId, toUInt16_add_sub]
  have hnat : (UInt16.ofNat n).toNat = n := toNat_number hW (by omega)
  rw [hqid]
  -- who has a number now: the worker itself, or one that had it before
  have hnumber : ∀ j qid, (Function.update sv.phase i (.numbered (UInt16.ofNat n)) j).number
      = some qid → (j = i ∧ qid.toNat = n) ∨ (j ≠ i ∧ (sv.phase j).number = some qid) := by
    intro j qid hj
    rcases phase_update sv.phase i j (.numbered (UInt16.ofNat n)) with ⟨hji, heq⟩ | ⟨hji, heq⟩
    · rw [heq] at hj
      left
      exact ⟨hji, Option.some.inj hj ▸ hnat⟩
    · rw [heq] at hj
      right
      exact ⟨hji, hj⟩
  refine ⟨h.totalQueues_eq, ?_, ?_, ?_, ?_, ?_, ?_⟩
  · show sv.wqId + 1 = _
    rw [h.wqId, int16_ofNat_succ]
  · rw [SharedVars.waiting_update (fun hp => by cases hp) rfl, Finset.card_erase_of_mem hmem]
    omega
  · intro j qid hj
    rcases hnumber j qid hj with ⟨-, hq⟩ | ⟨-, hq⟩
    · omega
    · exact Nat.lt_succ_of_lt (h.lt j qid hq)
  · intro j k qid hj hk
    rcases hnumber j qid hj with ⟨hji, hqj⟩ | ⟨-, hqj⟩
    · rcases hnumber k qid hk with ⟨hki, -⟩ | ⟨-, hqk⟩
      · rw [hji, hki]
      · -- the new number is larger than those given before
        have := h.lt k qid hqk
        omega
    · rcases hnumber k qid hk with ⟨-, hqk⟩ | ⟨-, hqk⟩
      · have := h.lt j qid hqj
        omega
      · exact h.distinct j k qid hqj hqk
  · intro j qid hj
    by_cases hji : j = i
    · simp [hji, WorkerPhase.queue] at hj
    · exact h.guarded j qid (by simpa [hji] using hj)
  · intro a ha
    have haccessed := h.accessed a ha
    have hne : a.1 ≠ i := by
      intro heq
      rw [heq, hi] at haccessed
      cases haccessed
    show (Function.update sv.phase i _ a.1).queue = _
    rw [Function.update_of_ne hne]
    exact haccessed

/-- A worker that goes on keeps its number, or returns without touching anything. -/
theorem Numbered.advance {sv : SharedVars W} {n : ℕ} (h : Numbered totalQueues sv n) {i : Fin W}
    (hi : sv.phase i ≠ .launched) {p : WorkerPhase} (hp : p ≠ .launched)
    (hnumber : ∀ qid, p.number = some qid → (sv.phase i).number = some qid)
    (hguard : ∀ qid, p.queue = some qid → qid ≤ totalQueues)
    (hkeep : ∀ qid, (sv.phase i).queue = some qid → p.queue = some qid)
    {new : List (Fin W × UInt16)} (hnew : ∀ a ∈ new, a.1 = i ∧ p.queue = some a.2) :
    Numbered totalQueues { sv with
      phase := Function.update sv.phase i p
      accesses := sv.accesses ++ new } n := by
  have hnum : ∀ j qid, (Function.update sv.phase i p j).number = some qid →
      (sv.phase j).number = some qid := by
    intro j qid hj
    rcases phase_update sv.phase i j p with ⟨hji, heq⟩ | ⟨-, heq⟩
    · rw [heq] at hj
      rw [hji]
      exact hnumber qid hj
    · rwa [heq] at hj
  refine ⟨h.totalQueues_eq, h.wqId, ?_, fun j qid hj => h.lt j qid (hnum j qid hj),
    fun j k qid hj hk => h.distinct j k qid (hnum j qid hj) (hnum k qid hk), ?_, ?_⟩
  · -- the worker is not among those that wait
    have hnot : i ∉ sv.waiting := fun hmem => hi (Finset.mem_filter.mp hmem).2
    rw [SharedVars.waiting_update hp rfl, Finset.erase_eq_of_notMem hnot]
    exact h.waiting
  · intro j qid hj
    by_cases hji : j = i
    · exact hguard qid (by simpa [hji] using hj)
    · exact h.guarded j qid (by simpa [hji] using hj)
  · intro a ha
    show (Function.update sv.phase i p a.1).queue = _
    rcases List.mem_append.mp ha with ha | ha
    · by_cases hai : a.1 = i
      · rw [hai, Function.update_self]
        exact hkeep _ (hai ▸ h.accessed a ha)
      · rw [Function.update_of_ne hai]
        exact h.accessed a ha
    · obtain ⟨hai, hqueue⟩ := hnew a ha
      rw [hai, Function.update_self]
      exact hqueue

/-- The guard. -/
theorem Numbered.guard {sv : SharedVars W} {n : ℕ} (h : Numbered totalQueues sv n) {i : Fin W}
    {qid : UInt16} (hi : sv.phase i = .numbered qid) {p : WorkerPhase}
    (hp : p = .quit ∨ (p = .admitted qid ∧ qid ≤ totalQueues)) :
    Numbered totalQueues { sv with phase := Function.update sv.phase i p } n := by
  have hne : sv.phase i ≠ .launched := by simp [hi]
  have hkeep : ∀ q, (sv.phase i).queue = some q → p.queue = some q := by
    intro q hq
    rw [hi] at hq
    cases hq
  have hadvance : Numbered totalQueues { sv with
      phase := Function.update sv.phase i p
      accesses := sv.accesses ++ [] } n := by
    rcases hp with rfl | ⟨rfl, hle⟩
    · exact h.advance hne (by simp) (fun _ hq => by cases hq) (fun _ hq => by cases hq) hkeep
        (by simp)
    · refine h.advance hne (by simp) (fun q hq => ?_) (fun q hq => ?_) hkeep (by simp)
      · rw [hi]
        exact hq
      · exact Option.some.inj hq ▸ hle
  rwa [List.append_nil] at hadvance

/-- A use of the queue. -/
theorem Numbered.access {sv : SharedVars W} {n : ℕ} (h : Numbered totalQueues sv n) {i : Fin W}
    {qid : UInt16} (hi : (sv.phase i).queue = some qid) {p : WorkerPhase}
    (hp : p.queue = some qid) :
    Numbered totalQueues { sv with
      phase := Function.update sv.phase i p
      accesses := sv.accesses ++ [(i, qid)] } n := by
  have hne : ∀ {r : WorkerPhase}, r.queue = some qid → r ≠ .launched := by
    intro r hr heq
    rw [heq] at hr
    cases hr
  have hnumber : ∀ q, p.number = some q → q = qid := by
    intro q hq
    rw [WorkerPhase.number_of_queue hp] at hq
    exact (Option.some.inj hq).symm
  refine h.advance (hne hi) (hne hp) (fun q hq => ?_) (fun q hq => ?_) (fun q hq => ?_)
    (by simp [hp])
  · rw [hnumber q hq]
    exact WorkerPhase.number_of_queue hi
  · rw [hp] at hq
    exact Option.some.inj hq ▸ h.guarded i qid hi
  · rw [hi] at hq
    exact Option.some.inj hq ▸ hp

/-- Each action keeps the queues numbered in the order of the increments. -/
theorem Numbered.step {sv sv' : SharedVars W} {n : ℕ} (h : Numbered totalQueues sv n)
    (hW : W ≤ 32767) {a : Fin W × Bool} (hstep : sv.step a = some sv') :
    ∃ n', Numbered totalQueues sv' n' := by
  obtain ⟨i, initOk⟩ := a
  cases hi : sv.phase i with
  | launched =>
    simp only [SharedVars.step, hi, Option.some.injEq] at hstep
    exact ⟨n + 1, hstep ▸ h.increment hW hi⟩
  | numbered qid =>
    simp only [SharedVars.step, hi] at hstep
    by_cases hgt : qid > sv.totalQueues
    · simp only [if_pos hgt, Option.some.injEq] at hstep
      exact ⟨n, hstep ▸ h.guard hi (Or.inl rfl)⟩
    · simp only [if_neg hgt, Option.some.injEq] at hstep
      have hle : qid ≤ totalQueues := by
        rw [← h.totalQueues_eq]
        exact UInt16.not_lt.mp hgt
      exact ⟨n, hstep ▸ h.guard hi (Or.inr ⟨rfl, hle⟩)⟩
  | admitted qid =>
    simp only [SharedVars.step, hi, Option.some.injEq] at hstep
    have hqueue : (sv.phase i).queue = some qid := by rw [hi]; rfl
    have hnext : (if initOk then WorkerPhase.polling qid else .finished qid).queue = some qid := by
      cases initOk <;> rfl
    exact ⟨n, hstep ▸ h.access hqueue hnext⟩
  | polling qid =>
    simp only [SharedVars.step, hi, Option.some.injEq] at hstep
    have hqueue : (sv.phase i).queue = some qid := by rw [hi]; rfl
    exact ⟨n, hstep ▸ h.access hqueue rfl⟩
  | finished qid =>
    simp only [SharedVars.step, hi] at hstep
    cases hstep
  | quit =>
    simp only [SharedVars.step, hi] at hstep
    cases hstep

/-- In every run the counter is the number of the increments made. -/
theorem Numbered.of_run (hW : W ≤ 32767) {as : List (Fin W × Bool)} {sv : SharedVars W}
    (hrun : run SharedVars.step (SharedVars.init W totalQueues) as = some sv) :
    ∃ n, Numbered totalQueues sv n :=
  run_invariant (P := fun sv => ∃ n, Numbered totalQueues sv n)
    (fun _ _ _ ⟨_, h⟩ hstep => h.step hW hstep) ⟨0, Numbered.init W totalQueues⟩ hrun

/-- With enough queues and enough places in the arrays. -/
theorem Numbered.exclusive {sv : SharedVars W} {n : ℕ} (h : Numbered totalQueues sv n)
    (hqueues : W ≤ totalQueues.toNat) (hplaces : W ≤ maxWorkerThreads) : sv.Exclusive := by
  have hcard := h.waiting
  have hlt : ∀ i qid, (sv.phase i).queue = some qid → qid.toNat < W := by
    intro i qid hi
    have := h.lt i qid (WorkerPhase.number_of_queue hi)
    omega
  refine ⟨fun i j qid hi hj => ?_, fun i qid hi => ?_, fun i qid hi => ?_, h.accessed⟩
  · exact h.distinct i j qid (WorkerPhase.number_of_queue hi) (WorkerPhase.number_of_queue hj)
  · have := hlt i qid hi
    rw [h.totalQueues_eq, UInt16.lt_iff_toNat_lt]
    omega
  · have := hlt i qid hi
    omega

/-! ## Runs that break the exclusion -/

/-- The first `k` workers increment the counter, the others have not started. -/
theorem exists_increments (totalQueues : UInt16) {k : ℕ} (hk : k ≤ W) :
    ∃ as sv, run SharedVars.step (SharedVars.init W totalQueues) as = some sv ∧
      sv.totalQueues = totalQueues ∧ sv.wqId = Int16.ofNat k ∧
      ∀ i : Fin W, k ≤ i.val → sv.phase i = .launched := by
  induction k with
  | zero => exact ⟨[], _, rfl, rfl, rfl, fun _ _ => rfl⟩
  | succ k ih =>
    obtain ⟨as, sv, hrun, htotal, hwqId, hlaunched⟩ := ih (by omega)
    have hi : sv.phase ⟨k, hk⟩ = .launched := hlaunched _ (le_refl k)
    refine ⟨as ++ [(⟨k, hk⟩, true)], { sv with
      wqId := sv.wqId + 1
      phase := Function.update sv.phase ⟨k, hk⟩ (.numbered ((sv.wqId + 1).toUInt16 - 1)) },
      ?_, htotal, ?_, fun j hj => ?_⟩
    · rw [run_concat _ hrun]
      simp only [SharedVars.step, hi]
    · show sv.wqId + 1 = _
      rw [hwqId, int16_ofNat_succ]
    · have hjk : j ≠ ⟨k, hk⟩ := by
        intro heq
        rw [heq] at hj
        exact Nat.not_succ_le_self k hj
      show Function.update sv.phase _ _ j = _
      rw [Function.update_of_ne hjk]
      exact hlaunched j (by omega)

/-- The guard lets the number `total_queues` through. -/
theorem exists_admitted {k : ℕ} (hk : k < W) (hW : W ≤ 32767) (hguard : k ≤ totalQueues.toNat) :
    ∃ as sv, run SharedVars.step (SharedVars.init W totalQueues) as = some sv ∧
      sv.totalQueues = totalQueues ∧ ∃ i, (sv.phase i).queue = some (UInt16.ofNat k) := by
  obtain ⟨as, sv, hrun, htotal, hwqId, hlaunched⟩ := exists_increments totalQueues hk.le
  have hi : sv.phase ⟨k, hk⟩ = .launched := hlaunched _ (le_refl k)
  have hqid : (sv.wqId + 1).toUInt16 - 1 = UInt16.ofNat k := by
    rw [hwqId, toUInt16_add_sub]
  have hnot : ¬ UInt16.ofNat k > sv.totalQueues := by
    apply UInt16.not_lt.mpr
    rw [htotal, UInt16.le_iff_toNat_le, toNat_number hW hk.le]
    exact hguard
  let sv' : SharedVars W := { sv with
    wqId := sv.wqId + 1
    phase := Function.update (Function.update sv.phase ⟨k, hk⟩ (.numbered (UInt16.ofNat k)))
      ⟨k, hk⟩ (.admitted (UInt16.ofNat k)) }
  refine ⟨as ++ [(⟨k, hk⟩, true), (⟨k, hk⟩, true)], sv', ?_, htotal, ⟨k, hk⟩, ?_⟩
  · rw [run_append, hrun]
    simp only [SharedVars.step, hi, hqid, Option.bind_some, run_cons, run_nil,
      Function.update_self, if_neg hnot, sv']
  · simp only [sv', Function.update_self, WorkerPhase.queue]

/-- The workers behind the guard have queues of their own, configured and inside the arrays, in
every order of their actions exactly when there are no more workers than queues and no more than
the arrays have places for. -/
theorem exclusive_iff (W : ℕ) (hW : W ≤ 32767) (totalQueues : UInt16) :
    (∀ as sv, run SharedVars.step (SharedVars.init W totalQueues) as = some sv → sv.Exclusive) ↔
      W ≤ totalQueues.toNat ∧ W ≤ maxWorkerThreads := by
  constructor
  · intro hall
    have hqueues : W ≤ totalQueues.toNat := by
      by_contra hmore
      have hworker : totalQueues.toNat < W := by omega
      obtain ⟨as, sv, hrun, htotal, i, hi⟩ := exists_admitted hworker hW (le_refl _)
      have hlt := (hall as sv hrun).lt_totalQueues i _ hi
      rw [htotal, UInt16.ofNat_toNat] at hlt
      exact UInt16.lt_irrefl _ hlt
    refine ⟨hqueues, ?_⟩
    by_contra hmore
    have hplace : maxWorkerThreads < W := by omega
    have hguard : maxWorkerThreads ≤ totalQueues.toNat := by omega
    obtain ⟨as, sv, hrun, -, i, hi⟩ := exists_admitted hplace hW hguard
    have hlt := (hall as sv hrun).lt_maxWorkerThreads i _ hi
    rw [toNat_number hW hplace.le] at hlt
    exact Nat.lt_irrefl _ hlt
  · intro ⟨hqueues, hplaces⟩ as sv hrun
    obtain ⟨n, hn⟩ := Numbered.of_run hW hrun
    exact hn.exclusive hqueues hplaces

theorem exclusive_twoWorkers :
    (∀ as sv, run SharedVars.step (SharedVars.init 2 2) as = some sv → sv.Exclusive) ↔
      2 ≤ (2 : UInt16).toNat ∧ 2 ≤ maxWorkerThreads :=
  exclusive_iff 2 (by decide) 2

/-- Two workers and one queue: the second worker takes queue 1. And with a queue for each of 33
workers the last one is behind the arrays. -/
theorem not_exclusive :
    (¬ ∀ as sv, run SharedVars.step (SharedVars.init 2 1) as = some sv → sv.Exclusive) ∧
    ¬ ∀ as sv, run SharedVars.step (SharedVars.init 33 33) as = some sv → sv.Exclusive := by
  constructor
  · intro hall
    obtain ⟨sv, hrun⟩ : ∃ sv, run SharedVars.step (SharedVars.init 2 1)
        [(0, true), (1, true), (1, true)] = some sv ∧ sv.totalQueues = 1 ∧
          (sv.phase 1).queue = some 1 := ⟨_, rfl, rfl, rfl⟩
    have hlt := (hall _ sv hrun.1).lt_totalQueues 1 1 hrun.2.2
    rw [hrun.2.1] at hlt
    exact UInt16.lt_irrefl _ hlt
  · intro hall
    obtain ⟨as, sv, hrun, -, i, hi⟩ :=
      @exists_admitted 33 33 32 (by decide) (by decide) (by decide)
    exact absurd ((hall as sv hrun).lt_maxWorkerThreads i _ hi) (by decide)

end RegexTest
end PamoRxpBench
