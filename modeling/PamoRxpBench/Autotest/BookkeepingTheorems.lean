import PamoRxpBench.Autotest.ParameterHandlerTheorems
import PamoRxpBench.Library.Runs

/-!
# The counters of a `ParameterHandler`

A handler and the files it saves its state to, under any sequence of its operations. As long as
no state is loaded, `configsLeft` is the length of the queue and what was popped and what is
left add up to `totalConfigs` (`Counted.step`). `load_state` puts the last set back without
counting it and forgets the total.
-/

namespace PamoRxpBench
namespace Autotest
namespace ParameterHandler

/-- A file that `save_state` may have written. -/
inductive StateFile
  | missing
  /-- Opened for writing by a `save_state` that then raised. -/
  | truncated
  | saved (s : SavedState)

/-- The handler and the files, by their path. -/
structure HandlerWorld where
  handler : ParameterHandler
  files : String → StateFile

/-- A call of one of the operations. -/
inductive HandlerOp
  | addParam (name : String) (vals : List Value)
  | addParamFilter (f : ParamSet → Bool)
  | start
  | peekParams
  | popParams
  | saveState (path : String)
  | loadState (path : String)

/-- The session with another handler. -/
def HandlerWorld.withHandler (w : HandlerWorld) (h : ParameterHandler) : HandlerWorld :=
  { w with handler := h }

/-- The session after the file at `path` was written. -/
def HandlerWorld.writeFile (w : HandlerWorld) (path : String) (file : StateFile) : HandlerWorld :=
  { w with files := fun p => if p = path then file else w.files p }

/-- One operation. One that raises leaves the handler as it is. -/
def HandlerWorld.step (w : HandlerWorld) : HandlerOp → HandlerWorld
  | .addParam name vals => w.withHandler ((w.handler.addParam name vals).getD w.handler)
  | .addParamFilter f => w.withHandler ((w.handler.addParamFilter f).getD w.handler)
  | .start => w.withHandler (w.handler.start.getD w.handler)
  | .peekParams => w.withHandler w.handler.peekParams.2
  | .popParams => w.withHandler w.handler.popParams.2
  | .saveState path =>
    -- before the start `_configs_left` is not set: `save_state` raises with the file open
    if w.handler.started then w.writeFile path (.saved w.handler.saveState)
    else w.writeFile path .truncated
  | .loadState path =>
    match w.files path with
    | .missing => w
    | .truncated => w
    | .saved s => w.withHandler (ParameterHandler.loadState s)

/-- `step` as a step of a run; every operation can be called at any time. -/
def HandlerWorld.take (w : HandlerWorld) (op : HandlerOp) : Option HandlerWorld := some (w.step op)

/-- The configurations that the next `n` calls of `pop_params` return. -/
def returned : ℕ → ParameterHandler → List ParamSet
  | 0, _ => []
  | n + 1, h => h.popParams.1.toList ++ returned n h.popParams.2

/-- What the counters should say about the queue of a running handler. -/
structure Consistent (h : ParameterHandler) : Prop where
  /-- However often `pop_params` is called from some number on, `get_configs_left` is how many
  configurations it returns. -/
  left : ∃ n, ∀ m ≥ n, h.getConfigsLeft = some ((returned m h).length : ℤ)
  total : ∃ popped left, h.getConfigsPopped = some popped ∧ h.getConfigsLeft = some left ∧
    (popped : ℤ) + left = h.getTotalConfigs

variable {h : ParameterHandler} {sets : List ParamSet}

theorem Queue.pop_nil (hq : Queue h []) : h.popParams = (none, h) := by
  rw [popParams, hq.ensureStarted, hq.paramsSets]
  rfl

/-- Enough calls of `pop_params` return the queue. -/
theorem Queue.returned (hq : Queue h sets) {n : ℕ} (hn : sets.length ≤ n) :
    returned n h = sets := by
  induction n generalizing h sets with
  | zero =>
    rw [List.eq_nil_of_length_eq_zero (Nat.le_zero.mp hn)]
    rfl
  | succ n ih =>
    unfold ParameterHandler.returned
    cases sets with
    | nil =>
      rw [hq.pop_nil]
      exact ih hq (Nat.zero_le n)
    | cons p sets =>
      rw [hq.pop_cons]
      show [p] ++ ParameterHandler.returned n (h.afterPop p sets) = p :: sets
      rw [ih hq.afterPop (Nat.le_of_succ_le_succ hn), List.singleton_append]

/-! ## The invariant -/

/-- The queue of a handler that has started holds configurations only, and the counters count
them; before the start it is empty. -/
inductive Counted (h : ParameterHandler) : Prop
  | notStarted (hstarted : h.started = false) (hempty : h.paramsSets = [])
  | running (sets : List ParamSet) (queue : Queue h sets)
      (left : h.configsLeft = sets.length)
      (total : (h.configsPopped : ℤ) + h.configsLeft = h.totalConfigs)

/-- A handler that was just made has not started. -/
theorem Counted.init (params : List (String × List Value)) (nRepeats : ℕ) :
    Counted (init params nRepeats) := .notStarted rfl rfl

/-- Building the sequence sets the totals by which it is counted. -/
theorem Counted.buildConfigs (hempty : h.paramsSets = []) : Counted h.buildConfigs := by
  have hqueue := buildConfigs_queue hempty
  refine .running h.configs hqueue ?_ ?_
  · show (h.buildConfigs.paramsSets.length : ℤ) = _
    rw [hqueue.paramsSets, List.length_map]
  · show ((0 : ℕ) : ℤ) + (h.buildConfigs.paramsSets.length : ℤ)
      = (h.buildConfigs.paramsSets.length : ℤ)
    omega

/-- Starting late counts as well as starting at once. -/
theorem Counted.ensureStarted (hc : Counted h) : Counted h.ensureStarted := by
  match hc with
  | .notStarted hstarted hempty =>
    rw [ParameterHandler.ensureStarted, hstarted]
    exact Counted.buildConfigs hempty
  | .running sets queue left total =>
    rw [queue.ensureStarted]
    exact .running sets queue left total

theorem started_ensureStarted : h.ensureStarted.started = true := by
  unfold ParameterHandler.ensureStarted
  split
  · assumption
  · rfl

/-- `pop_params` starts the handler itself. -/
theorem popParams_ensureStarted : h.ensureStarted.popParams = h.popParams := by
  unfold popParams
  rw [ParameterHandler.ensureStarted, if_pos started_ensureStarted]

/-- A set that is popped is one less that is left. -/
theorem Counted.popParams (hc : Counted h) : Counted h.popParams.2 := by
  rw [← popParams_ensureStarted]
  match hc.ensureStarted with
  | .notStarted hstarted _ =>
    rw [started_ensureStarted] at hstarted
    cases hstarted
  | .running [] queue left total =>
    rw [queue.pop_nil]
    exact .running [] queue left total
  | .running (p :: sets) queue left total =>
    rw [queue.pop_cons]
    rw [List.length_cons] at left
    -- one less is left, and one more was popped
    refine .running sets queue.afterPop ?_ ?_
    · show h.ensureStarted.configsLeft - 1 = _
      omega
    · show ((h.ensureStarted.configsPopped + 1 : ℕ) : ℤ) + (h.ensureStarted.configsLeft - 1) = _
      push_cast
      show _ = (h.ensureStarted.totalConfigs : ℤ)
      omega

/-- The operation loads no state. -/
def LoadsNothing (w : HandlerWorld) (op : HandlerOp) : Prop :=
  ∀ path s, op = .loadState path → w.files path ≠ .saved s

/-- Each operation keeps the counts, if it loads no state. -/
theorem Counted.step {w : HandlerWorld} {op : HandlerOp} (hc : Counted w.handler)
    (hload : LoadsNothing w op) : Counted (w.step op).handler := by
  cases op with
  | addParam name vals =>
    show Counted ((w.handler.addParam name vals).getD w.handler)
    unfold addParam
    match hc with
    | .notStarted hstarted hempty =>
      rw [if_neg (by rw [hstarted]; decide)]
      exact .notStarted hstarted hempty
    | .running _ queue _ _ =>
      rw [if_pos queue.started]
      exact hc
  | addParamFilter f =>
    show Counted ((w.handler.addParamFilter f).getD w.handler)
    unfold addParamFilter
    match hc with
    | .notStarted hstarted hempty =>
      rw [if_neg (by rw [hstarted]; decide)]
      exact .notStarted hstarted hempty
    | .running _ queue _ _ =>
      rw [if_pos queue.started]
      exact hc
  | start =>
    show Counted (w.handler.start.getD w.handler)
    unfold start
    match hc with
    | .notStarted hstarted hempty =>
      rw [hstarted]
      exact Counted.buildConfigs hempty
    | .running _ queue _ _ =>
      rw [queue.started]
      exact hc
  | peekParams => exact hc.ensureStarted
  | popParams => exact hc.popParams
  | saveState path =>
    show Counted (if w.handler.started then _ else _ : HandlerWorld).handler
    split <;> exact hc
  | loadState path =>
    dsimp only [HandlerWorld.step]
    split
    · exact hc
    · exact hc
    · -- the one step that reads a file: it must load nothing
      next s hfile => exact absurd hfile (hload path s rfl)

/-- Once it has started, a handler that is counted reports consistent numbers. -/
theorem Counted.consistent (hc : Counted h) (hstarted : h.started = true) : Consistent h := by
  match hc with
  | .notStarted hnot _ =>
    rw [hstarted] at hnot
    cases hnot
  | .running sets queue left total =>
    have hleft : h.getConfigsLeft = some h.configsLeft := by
      rw [getConfigsLeft, if_pos hstarted]
    refine ⟨⟨sets.length, fun m hm => ?_⟩, h.configsPopped, h.configsLeft, ?_, hleft, total⟩
    · rw [hleft, left, queue.returned hm]
    · rw [getConfigsPopped, if_pos hstarted]

/-- Loading the state of a handler that had popped a set always makes the counters wrong: the
set is returned once more and is not counted as left. -/
theorem Counted.not_consistent_loadState {p : ParamSet} (hc : Counted h)
    (hstarted : h.started = true) (hcurr : h.currParams = some p) :
    ¬ Consistent (ParameterHandler.loadState h.saveState) := by
  intro hcons
  match hc with
  | .notStarted hnot _ =>
    rw [hstarted] at hnot
    cases hnot
  | .running sets queue left _ =>
    have hqueue : Queue (ParameterHandler.loadState h.saveState) (p :: sets) :=
      loadState_queue hstarted hcurr queue.paramsSets
    obtain ⟨n, hn⟩ := hcons.left
    have hret := hn (n + (p :: sets).length) (by omega)
    rw [hqueue.returned (by omega), getConfigsLeft, if_pos hqueue.started] at hret
    have hleft : h.configsLeft = ((p :: sets).length : ℤ) := Option.some.inj hret
    rw [List.length_cons] at hleft
    omega

/-! ## Runs -/

/-- As long as no state is loaded, the counters of a running handler are right. -/
theorem consistent_of_run {params : List (String × List Value)} {nRepeats : ℕ}
    {files : String → StateFile} {ops : List HandlerOp} {w : HandlerWorld}
    (hload : Runs.Meets HandlerWorld.take LoadsNothing ⟨init params nRepeats, files⟩ ops)
    (hrun : Runs.run HandlerWorld.take ⟨init params nRepeats, files⟩ ops = some w)
    (hstarted : w.handler.started = true) : Consistent w.handler := by
  refine Counted.consistent ?_ hstarted
  refine Runs.run_invariant_of_meets (P := fun w => Counted w.handler) ?_
    (Counted.init params nRepeats) hload hrun
  intro u op v hc hmeets hstep
  rw [← Option.some.inj hstep]
  exact hc.step hmeets

theorem meets_take_cons {w : HandlerWorld} {op : HandlerOp} {ops : List HandlerOp}
    (hop : LoadsNothing w op) (hops : Runs.Meets HandlerWorld.take LoadsNothing (w.step op) ops) :
    Runs.Meets HandlerWorld.take LoadsNothing w (op :: ops) := by
  refine ⟨hop, fun v hv => ?_⟩
  rw [← Option.some.inj hv]
  exact hops

theorem consistent_of_run_twoPops :
    ∃ w, Runs.run HandlerWorld.take ⟨init [("a", [.int 1, .int 2])] 2, fun _ => .missing⟩
        [.start, .popParams, .saveState "f", .loadState "g", .popParams] = some w ∧
      Consistent w.handler := by
  have hload : Runs.Meets HandlerWorld.take LoadsNothing
      ⟨init [("a", [.int 1, .int 2])] 2, fun _ => .missing⟩
      [.start, .popParams, .saveState "f", .loadState "g", .popParams] := by
    refine meets_take_cons (by intro path s hop; cases hop) ?_
    refine meets_take_cons (by intro path s hop; cases hop) ?_
    refine meets_take_cons (by intro path s hop; cases hop) ?_
    -- there is no file `g`
    refine meets_take_cons (by intro path s hop; cases hop; exact fun hfile => nomatch hfile) ?_
    exact meets_take_cons (by intro path s hop; cases hop) trivial
  exact ⟨_, rfl, consistent_of_run hload rfl rfl⟩

/-- A handler that is saved after its first pop and loaded: the set it was at is back in the
queue but not counted as left, and the total is gone. After the last set -1 are left. -/
theorem not_consistent_of_run_load :
    (∃ w, Runs.run HandlerWorld.take ⟨init [("a", [.int 1, .int 2])] 1, fun _ => .missing⟩
        [.start, .popParams, .saveState "f", .loadState "f"] = some w ∧
      w.handler.started = true ∧ ¬ Consistent w.handler ∧
      w.handler.getConfigsLeft = some 1 ∧ (∀ n ≥ 2, (returned n w.handler).length = 2) ∧
      w.handler.getTotalConfigs = 0) ∧
    ∃ w, Runs.run HandlerWorld.take ⟨init [("a", [.int 1, .int 2])] 1, fun _ => .missing⟩
        [.start, .popParams, .saveState "f", .loadState "f", .popParams, .popParams] = some w ∧
      w.handler.getConfigsLeft = some (-1) := by
  refine ⟨⟨_, rfl, rfl, fun hc => ?_, rfl, fun n hn => ?_, rfl⟩, _, rfl, rfl⟩
  · obtain ⟨popped, left, hpopped, hleft, htotal⟩ := hc.total
    obtain rfl : 1 = popped := Option.some.inj hpopped
    obtain rfl : 1 = left := Option.some.inj hleft
    exact absurd htotal (by decide)
  · refine (congrArg List.length ?_).trans
      (rfl : [configOf ["a"] [.int 1], configOf ["a"] [.int 2]].length = 2)
    exact Queue.returned ⟨rfl, rfl⟩ hn

end ParameterHandler
end Autotest
end PamoRxpBench
