import PamoRxpBench.Autotest.ExpRunnerTheorems
import PamoRxpBench.Autotest.ParameterHandlerTheorems

/-!
# Interrupting and resuming an experiment

`Progress` follows the queue of configurations through a session: completed, current and
still queued configurations make up what the session started with, and the state saved last
stands for the configuration completed last and the queue behind it. So each session that
completed something is followed by one that starts with a configuration already completed
(`Progress.finds`), and over any number of interruptions the configurations run are the
uninterrupted sequence exactly when nothing had been completed (`resumesExactly_iff`).
-/

namespace PamoRxpBench
namespace Autotest

open Runs ParameterHandler

/-! ## What a session starts with -/

/-- The configurations of an experiment. -/
def Experiment.configs (e : Experiment) : List ParamSet := (Runner.freshParams e).configs

/-- A saved state of the experiment that stands for the queue `sets`. -/
structure StandsFor (e : Experiment) (sets : List ParamSet) (s : SavedState) : Prop where
  names : s.parameterNames = (Runner.freshParams e).parameterNames
  vals : s.parameterVals = (Runner.freshParams e).parameterVals
  queue : Queue (loadState s) sets
  mem_configs : ∀ p ∈ sets, p ∈ e.configs

/-- What a session finds lets it start with the queue `sets`. -/
inductive Finds (e : Experiment) (sets : List ParamSet) (left : Left) : Prop
  | fresh (hnone : left.saveFile = none) (hsets : sets = e.configs)
  | saved (s : SavedState) (hsome : left.saveFile = some s) (hs : StandsFor e sets s)

theorem Finds.mem_configs {e : Experiment} {sets : List ParamSet} {left : Left}
    (h : Finds e sets left) : ∀ p ∈ sets, p ∈ e.configs := by
  cases h with
  | fresh hnone hsets => exact fun p hp => hsets ▸ hp
  | saved s hsome hs => exact hs.mem_configs

/-- The handler of a session: its queue, and the parameters of the experiment. -/
structure Handles (e : Experiment) (sets : List ParamSet) (h : ParameterHandler) : Prop where
  queue : Queue h sets
  names : h.parameterNames = (Runner.freshParams e).parameterNames
  vals : h.parameterVals = (Runner.freshParams e).parameterVals

/-- A state of the same experiment has its hash. -/
theorem StandsFor.loadedParams {e : Experiment} {sets : List ParamSet} {s : SavedState}
    (hs : StandsFor e sets s) (py : PyHash) :
    Runner.loadedParams e py (some s) = some (loadState s) := by
  have hhash : (loadState s).hash py = (Runner.freshParams e).hash py := by
    have hnames : (loadState s).parameterNames = (Runner.freshParams e).parameterNames := hs.names
    have hvals : (loadState s).parameterVals = (Runner.freshParams e).parameterVals := hs.vals
    rw [ParameterHandler.hash, ParameterHandler.hash, hnames, hvals]
  simp only [Runner.loadedParams, hhash, if_true]

/-- A session takes up the sequence where the last one saved it. -/
theorem Finds.main {e : Experiment} {sets : List ParamSet} {left : Left}
    (h : Finds e sets left) (py : PyHash) (rows : List DataEntry) :
    Handles e sets (Runner.main e py left rows).exparams := by
  cases h with
  | fresh hnone hsets =>
    have hloaded : Runner.loadedParams e py left.saveFile = none := by
      rw [hnone]
      rfl
    rw [Runner.main, hloaded, hsets]
    exact ⟨buildConfigs_queue rfl, rfl, rfl⟩
  | saved s hsome hs =>
    have hloaded : Runner.loadedParams e py left.saveFile = some (loadState s) := by
      rw [hsome]
      exact hs.loadedParams py
    rw [Runner.main, hloaded]
    exact ⟨hs.queue, hs.names, hs.vals⟩

/-! ## Through a session -/

/-- The configuration a session is working on, if any. -/
def Runner.working (r : Runner) : List ParamSet := (r.current.map Prod.fst).toList

/-- A session that started with `sets`: which are completed, worked on and queued, and what
the state saved last stands for. -/
structure Progress (e : Experiment) (left : Left) (sets : List ParamSet) (r : Runner) : Prop where
  mem_configs : ∀ p ∈ sets, p ∈ e.configs
  queued : ∃ rest, sets = r.completed.map Prod.fst ++ r.working ++ rest
    ∧ Handles e rest r.exparams
    ∧ ∀ params cfg, r.current = some (params, cfg) → r.exparams.currParams = some params
  saved : r.completed = [] ∧ r.saveFile = left.saveFile ∨
    r.completed ≠ [] ∧ ∃ s last rest, r.saveFile = some s ∧ StandsFor e (last :: rest) s
      ∧ sets.length + 1 = r.completed.length + (last :: rest).length

theorem Progress.main {e : Experiment} {left : Left} {sets : List ParamSet}
    (h : Finds e sets left) (py : PyHash) (rows : List DataEntry) :
    Progress e left sets (Runner.main e py left rows) where
  mem_configs := h.mem_configs
  queued := ⟨sets, rfl, h.main py rows, fun _ _ hcur => by cases hcur⟩
  saved := Or.inl ⟨rfl, rfl⟩

/-- What is popped is the head of the queue. -/
theorem nextParams_cases {initConfig : Config} {r r₁ : Runner} {params : ParamSet} {cfg : Config}
    {e : Experiment} {queue : List ParamSet} (hq : Handles e queue r.exparams)
    (h : r.nextParams initConfig = some (r₁, params, cfg)) :
    ∃ rest called paramsEvts, queue = params :: rest ∧ cfg = currCfg initConfig params
      ∧ r.paramsEvts.processParameters params = some (called, paramsEvts)
      ∧ r₁ = { r with
          exparams := r.exparams.afterPop params rest
          paramsEvts := paramsEvts
          rendered := if 0 ∈ called then some (currCfg initConfig params) else r.rendered } := by
  cases queue with
  | nil => simp [Runner.nextParams, hq.queue.peek_nil] at h
  | cons p rest =>
    simp only [Runner.nextParams, hq.queue.peek_cons, hq.queue.pop_cons] at h
    obtain ⟨⟨called, paramsEvts⟩, hproc, hx⟩ := Option.map_eq_some_iff.mp h
    cases hx
    exact ⟨rest, called, paramsEvts, rfl, rfl, hproc, rfl⟩

/-- The configuration a step measures is the one behind the completed ones. -/
theorem Progress.picked {initConfig : Config} {e : Experiment} {left : Left}
    {sets : List ParamSet} {r r₁ : Runner} {params : ParamSet} {cfg : Config}
    (h : Progress e left sets r) (hpick : Picked initConfig r r₁ params cfg) :
    ∃ rest, sets = r.completed.map Prod.fst ++ params :: rest ∧ Handles e rest r₁.exparams
      ∧ r₁.exparams.currParams = some params := by
  obtain ⟨queue, hsets, hhandles, hcurr⟩ := h.queued
  cases hpick with
  | current hcur =>
    refine ⟨queue, ?_, hhandles, hcurr params cfg hcur⟩
    rw [hsets, Runner.working, hcur, List.append_assoc]
    rfl
  | next hcur hnext =>
    obtain ⟨rest, called, paramsEvts, rfl, -, -, rfl⟩ := nextParams_cases hhandles hnext
    refine ⟨rest, ?_, ⟨hhandles.queue.afterPop, hhandles.names, hhandles.vals⟩, rfl⟩
    rw [hsets, Runner.working, hcur, Option.map_none, Option.toList_none, List.append_nil]

/-- An accepted attempt saves a state that stands for its own configuration and the queue: one
configuration more than is left. -/
theorem Progress.complete {e : Experiment} {left : Left} {sets rest : List ParamSet}
    {r r₁ : Runner} {params : ParamSet} (h : Progress e left sets r)
    (hcompleted : r₁.completed = r.completed)
    (hsets : sets = r.completed.map Prod.fst ++ params :: rest)
    (hhandles : Handles e rest r₁.exparams) (hcurr : r₁.exparams.currParams = some params)
    (result : DataEntry) (data : DataManager) :
    Progress e left sets (r₁.complete params result data) := by
  have hsaved : StandsFor e (params :: rest) r₁.exparams.saveState :=
    ⟨hhandles.names, hhandles.vals,
      loadState_queue hhandles.queue.started hcurr hhandles.queue.paramsSets,
      fun p hp => h.mem_configs p (hsets ▸ List.mem_append_right _ hp)⟩
  refine ⟨h.mem_configs, ⟨rest, ?_, hhandles, fun _ _ hcur => by cases hcur⟩, Or.inr
    ⟨List.append_ne_nil_of_right_ne_nil _ (List.cons_ne_nil _ _),
      r₁.exparams.saveState, params, rest, rfl, hsaved, ?_⟩⟩
  · show sets = (r₁.completed ++ [(params, result)]).map Prod.fst ++ [] ++ rest
    rw [hsets, hcompleted, List.map_append, List.append_nil, List.append_assoc]
    rfl
  · show sets.length + 1 = (r₁.completed ++ [(params, result)]).length + _
    rw [hsets, hcompleted]
    simp only [List.length_append, List.length_map, List.length_cons, List.length_nil]
    omega

/-- An accepted attempt is one configuration of the sequence further. -/
theorem Progress.step {initConfig : Config} {e : Experiment} {left : Left}
    {sets : List ParamSet} {r r' : Runner} {a : Attempt} (h : Progress e left sets r)
    (hstep : r.step initConfig a = some r') : Progress e left sets r' := by
  obtain ⟨r₁, params, cfg, hpick, rfl⟩ := step_cases hstep
  obtain ⟨rest, hsets, hhandles, hcurr⟩ := h.picked hpick
  have hcompleted : r₁.completed = r.completed := hpick.frame.2.1
  cases hacc : a.accepted with
  | true =>
    rw [attempt_of_accepted r₁ params cfg hacc]
    have hrecord : (r₁.record cfg).completed = r.completed := hcompleted
    exact h.complete hrecord hsets hhandles hcurr _ _
  | false =>
    obtain ⟨hcompleted', -, hsave'⟩ := step_of_not_accepted hstep hacc
    refine ⟨h.mem_configs, ?_, by rw [hcompleted', hsave']; exact h.saved⟩
    obtain ⟨data, hdata⟩ := attempt_of_not_accepted r₁ params cfg hacc
    rw [hdata]
    refine ⟨rest, ?_, hhandles, fun p c hcur => ?_⟩
    · show sets = r₁.completed.map Prod.fst ++ [params] ++ rest
      rw [hsets, hcompleted, List.append_assoc]
      rfl
    · cases hcur
      exact hcurr

/-- How many configurations a session completed: one for each accepted attempt. -/
theorem length_completed {initConfig : Config} {start r : Runner} {as : List Attempt}
    (hstart : start.completed = []) (h : run (Runner.step initConfig) start as = some r) :
    r.completed.length = as.countP Attempt.accepted := by
  refine run_history (P := fun as r => r.completed.length = as.countP Attempt.accepted)
    (fun as r a r' hlen hstep => ?_) (by rw [hstart]; rfl) h
  obtain ⟨r₁, params, cfg, hpick, rfl⟩ := step_cases hstep
  have hcompleted := hpick.frame.2.1
  rw [List.countP_append, List.countP_singleton]
  cases hacc : a.accepted with
  | true =>
    rw [attempt_of_accepted r₁ params cfg hacc]
    show (r₁.completed ++ [(params, a.result)]).length = _
    rw [hcompleted, List.length_append, hlen]
    rfl
  | false =>
    obtain ⟨data, hdata⟩ := attempt_of_not_accepted r₁ params cfg hacc
    rw [hdata]
    show r₁.completed.length = _
    rw [hcompleted, hlen]
    rfl

/-! ## From session to session -/

/-- The session completed a configuration. -/
def Session.completes (s : Session) : Bool := s.attempts.any Attempt.accepted

/-- What a session leaves: the state it found, if it completed nothing; else a queue that is
one configuration longer than what is left to do. -/
theorem Progress.finds {initConfig : Config} {e : Experiment} {left : Left}
    {sets : List ParamSet} {s : Session} {r : Runner} {py : PyHash} (h : Finds e sets left)
    (hrun : run (Runner.step initConfig) (Runner.main e py left s.rows) s.attempts = some r) :
    ∃ sets', Finds e sets' ⟨r.saveFile⟩ ∧
      r.completed.length + sets'.length = sets.length + if s.completes then 1 else 0 := by
  have hprog : Progress e left sets r :=
    run_invariant (fun _ _ _ hp hs => hp.step hs) (Progress.main h py s.rows) hrun
  have hlen := length_completed rfl hrun
  have hcompletes : s.completes = true ↔ 0 < r.completed.length := by
    rw [hlen, List.countP_pos_iff, Session.completes, List.any_eq_true]
  rcases hprog.saved with ⟨hnil, hsame⟩ | ⟨hne, state, last, rest, hsave, hstands, hcount⟩
  · refine ⟨sets, ?_, ?_⟩
    · cases h with
      | fresh hnone hsets => exact .fresh (hsame.trans hnone) hsets
      | saved s hsome hs => exact .saved s (hsame.trans hsome) hs
    · have : ¬ s.completes = true := by simp [hcompletes, hnil]
      rw [hnil, if_neg this, List.length_nil]
      omega
  · refine ⟨last :: rest, .saved state hsave hstands, ?_⟩
    rw [if_pos (hcompletes.mpr (List.length_pos_iff.mpr hne))]
    omega

/-- Over interrupted sessions the number of configurations completed and left to do grows by
one with every session that completed something. -/
theorem sessions_length {e : Experiment} {py : PyHash} {initConfig : Config} {ss : List Session}
    {left left' : Left} {sets done : List ParamSet} (h : Finds e sets left)
    (hss : sessions e py initConfig left ss = some (done, left')) :
    ∃ sets', Finds e sets' left' ∧
      done.length + sets'.length = sets.length + ss.countP Session.completes := by
  induction ss generalizing left sets done with
  | nil =>
    cases hss
    exact ⟨sets, h, by simp⟩
  | cons s ss ih =>
    obtain ⟨r, hrun, hrest⟩ := Option.bind_eq_some_iff.mp hss
    obtain ⟨⟨done', left''⟩, hdone, hx⟩ := Option.map_eq_some_iff.mp hrest
    cases hx
    obtain ⟨mid, hmid, hcount⟩ := Progress.finds h hrun
    obtain ⟨sets', hsets', hcount'⟩ := ih hmid hdone
    refine ⟨sets', hsets', ?_⟩
    rw [List.length_append, List.length_map, List.countP_cons]
    omega

/-- Sessions that complete nothing leave the state they find. -/
theorem sessions_of_not_completes {e : Experiment} {py : PyHash} {initConfig : Config}
    {ss : List Session} {left left' : Left} {done : List ParamSet}
    (hnone : ∀ s ∈ ss, s.completes = false)
    (hss : sessions e py initConfig left ss = some (done, left')) :
    done = [] ∧ left'.saveFile = left.saveFile := by
  induction ss generalizing left done with
  | nil =>
    cases hss
    exact ⟨rfl, rfl⟩
  | cons s ss ih =>
    obtain ⟨r, hrun, hrest⟩ := Option.bind_eq_some_iff.mp hss
    obtain ⟨⟨done', left''⟩, hdone, hx⟩ := Option.map_eq_some_iff.mp hrest
    cases hx
    obtain ⟨rfl, hsave⟩ := ih (fun t ht => hnone t (List.mem_cons_of_mem _ ht)) hdone
    have hs : ∀ a ∈ s.attempts, a.accepted = false := by
      have := hnone s List.mem_cons_self
      simpa [Session.completes] using this
    -- no attempt of the session is accepted, so it never saves
    have hkeep : r.completed = [] ∧ r.saveFile = left.saveFile := by
      refine (run_history (P := fun as r => (∀ a ∈ as, a.accepted = false) →
          r.completed = [] ∧ r.saveFile = left.saveFile) (fun as r a r' ih hstep has => ?_)
        (fun _ => ⟨rfl, rfl⟩) hrun) hs
      obtain ⟨hcompleted, -, hsave⟩ := step_of_not_accepted hstep (has a (by simp))
      rw [hcompleted, hsave]
      exact ih fun b hb => has b (List.mem_append_left _ hb)
    rw [hkeep.1]
    exact ⟨rfl, hsave.trans hkeep.2⟩

/-- The configurations completed by interrupted sessions, followed by those the next session
pops, are the uninterrupted sequence. -/
def ResumesExactly (e : Experiment) (py : PyHash) (done : List ParamSet) (left : Left) : Prop :=
  ∀ rows, done ++ (Runner.main e py left rows).exparams.popUntilNone
    = (Runner.main e py .nothing []).exparams.popUntilNone

/-- **When resuming repeats nothing**: no interrupted session had completed a configuration. -/
theorem resumesExactly_iff (e : Experiment) (py : PyHash) (initConfig : Config)
    (ss : List Session) (done : List ParamSet) (left : Left)
    (hss : sessions e py initConfig .nothing ss = some (done, left)) :
    ResumesExactly e py done left ↔ ∀ s ∈ ss, s.completes = false := by
  have hstart : Finds e e.configs .nothing := .fresh rfl rfl
  obtain ⟨sets, hsets, hcount⟩ := sessions_length hstart hss
  have hpop : ∀ rows, (Runner.main e py left rows).exparams.popUntilNone = sets := fun rows =>
    (hsets.main py rows).queue.popUntilNone
  have hall : (Runner.main e py .nothing []).exparams.popUntilNone = e.configs :=
    (hstart.main py []).queue.popUntilNone
  constructor
  · intro h s hs
    -- every session that completed something is one configuration too many
    have hlen := congrArg List.length (h [])
    rw [hpop, hall, List.length_append] at hlen
    have hzero : ss.countP Session.completes = 0 := by omega
    simpa using List.countP_eq_zero.mp hzero s hs
  · intro h rows
    obtain ⟨rfl, hsave⟩ := sessions_of_not_completes h hss
    have hleft : Finds e e.configs left := .fresh hsave rfl
    rw [(hleft.main py rows).queue.popUntilNone, hall, List.nil_append]

/-- One configuration, completed, then interrupted: it is run again. -/
theorem resumesExactly_oneCompleted :
    ∃ done left, sessions oneConfig ⟨fun _ => 0, fun _ => 0⟩ ∅ .nothing [⟨[], [regexCounters]⟩]
      = some (done, left) ∧ ¬ ResumesExactly oneConfig ⟨fun _ => 0, fun _ => 0⟩ done left := by
  refine ⟨_, _, rfl, fun h => ?_⟩
  exact absurd (congrArg List.length (h [])) (by decide)

/-- Interrupted after a failed attempt, nothing is repeated. -/
theorem resumesExactly_failedAttempt :
    ∃ done left, sessions oneConfig ⟨fun _ => 0, fun _ => 0⟩ ∅ .nothing [⟨[], [portCounters "7"]⟩]
      = some (done, left) ∧ ResumesExactly oneConfig ⟨fun _ => 0, fun _ => 0⟩ done left :=
  ⟨_, _, rfl, (resumesExactly_iff _ _ ∅ [⟨[], [portCounters "7"]⟩] _ _ rfl).mpr (by decide)⟩

end Autotest
end PamoRxpBench
