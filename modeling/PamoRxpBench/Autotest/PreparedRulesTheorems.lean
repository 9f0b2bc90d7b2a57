import PamoRxpBench.Autotest.ResumeTheorems

/-!
# Which rule set is measured

`prep_rules.sh` is rendered by a callback registered for three parameters. `prepTrace` is what
that amounts to for a sequence of parameter sets: for each the configuration rendered last. A
session follows it (`Follows`), and measures all of it in some run (`exists_run`). So every
measurement is made on a rule set prepared for its configuration exactly when the callback is called
for the first configuration, which it never is when the session resumes, and no two consecutive ones
differ in a variable of the script without differing in one of the three (`measuresPrepared_iff`).
-/

namespace PamoRxpBench
namespace Autotest

open Runs ParameterHandler

/-- The template variables of `prep_rules.sh`. -/
def prepVariables : List String :=
  ["n_rules", "rules_patlen_greaterthan", "rules_use_content_kw", "rules_use_pcre_kw",
    "rule_subset_ratio", "pattern_db", "fixed_seed", "rgx_enabled", "hs_enabled"]

/-- Two configurations that `prep_rules.sh` cannot tell apart. -/
def Agrees (c d : Config) : Prop := ∀ x ∈ prepVariables, c.lookup x = d.lookup x

instance (c d : Config) : Decidable (Agrees c d) := inferInstanceAs (Decidable (∀ x ∈ _, _))

theorem Agrees.refl (c : Config) : Agrees c c := fun _ _ => rfl

theorem Agrees.symm {c d : Config} (h : Agrees c d) : Agrees d c := fun x hx => (h x hx).symm

theorem Agrees.trans {b c d : Config} (h : Agrees b c) (h' : Agrees c d) : Agrees b d :=
  fun x hx => (h x hx).trans (h' x hx)

/-- A measurement of a configuration with the one rendered last: the rule set is its own. -/
def PreparedFor (m : Config × Option Config) : Prop := ∃ c, m.2 = some c ∧ Agrees c m.1

/-! ## The trace of rendered configurations -/

/-- The callback is called for `params` after `previous`. -/
def renders (blank : Bool) (previous : Option ParamSet) (params : ParamSet) : Bool :=
  match previous with
  | none => blank && prepTrigger.any fun t => t ∈ params
  | some q => prepTrigger.any fun t => decide (t ∈ q) && decide (q.lookup t ≠ params.lookup t)

/-- The previous parameter set and the configuration rendered last, after `params`. -/
def prepStep (initConfig : Config) (blank : Bool) (s : Option ParamSet × Option Config)
    (params : ParamSet) : Option ParamSet × Option Config :=
  (some params, if renders blank s.1 params then some (currCfg initConfig params) else s.2)

/-- Every configuration with the one rendered last when it is measured. -/
def prepTrace (initConfig : Config) (blank : Bool) :
    Option ParamSet × Option Config → List ParamSet → List (Config × Option Config)
  | _, [] => []
  | s, p :: ps =>
    (currCfg initConfig p, (prepStep initConfig blank s p).2)
      :: prepTrace initConfig blank (prepStep initConfig blank s p) ps

theorem prepTrace_append (initConfig : Config) (blank : Bool)
    (s : Option ParamSet × Option Config) (ps qs : List ParamSet) :
    prepTrace initConfig blank s (ps ++ qs)
      = prepTrace initConfig blank s ps
        ++ prepTrace initConfig blank (ps.foldl (prepStep initConfig blank) s) qs := by
  induction ps generalizing s with
  | nil => rfl
  | cons p ps ih => simp only [List.cons_append, prepTrace, ih, List.foldl_cons]

/-- `q` is prepared if `p` was: they agree, or the callback is called between them. -/
def StaysPrepared (initConfig : Config) (p q : ParamSet) : Prop :=
  Agrees (currCfg initConfig p) (currCfg initConfig q) ∨
    ∃ t ∈ prepTrigger, t ∈ p ∧ p.lookup t ≠ q.lookup t

instance (initConfig : Config) (p q : ParamSet) : Decidable (StaysPrepared initConfig p q) :=
  inferInstanceAs (Decidable (_ ∨ _))

theorem renders_some {blank : Bool} {p q : ParamSet} :
    renders blank (some p) q = true ↔ ∃ t ∈ prepTrigger, t ∈ p ∧ p.lookup t ≠ q.lookup t := by
  simp only [renders, List.any_eq_true, Bool.and_eq_true, decide_eq_true_eq]

/-- Behind a prepared configuration, all are prepared iff each stays so. -/
theorem prepTrace_preparedFor_iff {initConfig c : Config} {blank : Bool} {p : ParamSet}
    (hc : Agrees c (currCfg initConfig p)) (ps : List ParamSet) :
    (∀ m ∈ prepTrace initConfig blank (some p, some c) ps, PreparedFor m) ↔
      (p :: ps).IsChain (StaysPrepared initConfig) := by
  induction ps generalizing p c with
  | nil => simp [prepTrace]
  | cons q qs ih =>
    rw [prepTrace, List.forall_mem_cons, List.isChain_cons_cons]
    by_cases hr : renders blank (some p) q = true
    · have hstep : prepStep initConfig blank (some p, some c) q
          = (some q, some (currCfg initConfig q)) := by
        rw [prepStep, if_pos hr]
      rw [hstep, ih (Agrees.refl _)]
      refine and_congr_left fun _ => ?_
      exact iff_of_true ⟨_, rfl, Agrees.refl _⟩ (Or.inr (renders_some.mp hr))
    · have hstep : prepStep initConfig blank (some p, some c) q = (some q, some c) := by
        rw [prepStep, if_neg hr]
      rw [hstep]
      -- without a call `q` is prepared iff it agrees with `p`
      have hhead : PreparedFor (currCfg initConfig q, some c) ↔ StaysPrepared initConfig p q := by
        constructor
        · rintro ⟨d, hd, hdq⟩
          obtain rfl := Option.some.inj hd
          exact Or.inl (hc.symm.trans hdq)
        · rintro (hpq | htrigger)
          · exact ⟨c, rfl, hc.trans hpq⟩
          · exact absurd (renders_some.mpr htrigger) hr
      rw [hhead]
      refine and_congr_right fun hpq => ?_
      rcases hpq with hpq | htrigger
      · exact ih (hc.trans hpq)
      · exact absurd (renders_some.mpr htrigger) hr

/-- The first configuration is prepared: the session does not resume, and one of the three
parameters is there. -/
def StartsPrepared (blank : Bool) (p : ParamSet) : Prop := blank = true ∧ ∃ t ∈ prepTrigger, t ∈ p

instance (blank : Bool) (p : ParamSet) : Decidable (StartsPrepared blank p) :=
  inferInstanceAs (Decidable (_ ∧ _))

theorem renders_none {blank : Bool} {p : ParamSet} :
    renders blank none p = true ↔ StartsPrepared blank p := by
  simp only [renders, StartsPrepared, Bool.and_eq_true, List.any_eq_true, decide_eq_true_eq]

/-- All configurations are prepared iff the first is and each of the others stays so. -/
theorem prepTrace_start_iff (initConfig : Config) (blank : Bool) (ps : List ParamSet) :
    (∀ m ∈ prepTrace initConfig blank (none, none) ps, PreparedFor m) ↔
      (∀ p ∈ ps.head?, StartsPrepared blank p) ∧ ps.IsChain (StaysPrepared initConfig) := by
  cases ps with
  | nil => simp [prepTrace]
  | cons p ps =>
    rw [prepTrace, List.forall_mem_cons, List.head?_cons]
    have hsome : (∀ q ∈ some p, StartsPrepared blank q) ↔ StartsPrepared blank p :=
      ⟨fun h => h p rfl, fun h q hq => Option.some.inj hq ▸ h⟩
    rw [hsome]
    by_cases hcall : renders blank none p = true
    · have hstep : prepStep initConfig blank (none, none) p =
          (some p, some (currCfg initConfig p)) := by
        rw [prepStep, if_pos hcall]
      rw [hstep, prepTrace_preparedFor_iff (Agrees.refl _)]
      refine and_congr_left fun _ => ?_
      exact iff_of_true ⟨_, rfl, Agrees.refl _⟩ (renders_none.mp hcall)
    · -- nothing was rendered in this session
      have hstep : prepStep initConfig blank (none, none) p = (some p, none) := by
        rw [prepStep, if_neg hcall]
      rw [hstep]
      refine iff_of_false (fun h => ?_) fun h => hcall (renders_none.mpr h.1)
      obtain ⟨c, hc, -⟩ := h.1
      cases hc

/-! ## Processing parameters -/

/-- The manager of `main`: one callback, for the three parameters. -/
def prepEvents (blank : Bool) (previous : Option ParamSet) : ParameterEventManager :=
  ⟨blank, [⟨.disjunction, prepTrigger⟩], previous⟩

/-- The event of the rule set fires when one of its three parameters is in the difference. -/
theorem getParamDiff_renders {blank : Bool} {previous : Option ParamSet} {params : ParamSet}
    {diff : List String} (h : (prepEvents blank previous).getParamDiff params = some diff) :
    (prepTrigger.any fun t => t ∈ diff) = renders blank previous params := by
  cases previous with
  | none =>
    obtain rfl := Option.some.inj h
    cases blank with
    | true => simp only [renders, prepEvents, if_true, Bool.true_and, AList.mem_keys]
    | false =>
      simp [renders, prepEvents]
  | some q =>
    simp only [ParameterEventManager.getParamDiff, prepEvents] at h
    split at h
    · obtain rfl := Option.some.inj h
      simp [renders, List.mem_filter, AList.mem_keys]
    · cases h

/-- Which callbacks are called, and what is remembered. -/
theorem processParameters_eq {blank : Bool} {previous : Option ParamSet} {params : ParamSet}
    {called : List ℕ} {evts : ParameterEventManager}
    (h : (prepEvents blank previous).processParameters params = some (called, evts)) :
    (0 ∈ called ↔ renders blank previous params = true) ∧
      evts = prepEvents blank (some params) := by
  obtain ⟨diff, hdiff, hx⟩ := Option.map_eq_some_iff.mp h
  cases hx
  refine ⟨?_, rfl⟩
  rw [← getParamDiff_renders hdiff, List.mem_filter]
  simp [prepEvents, ParameterEventManager.EventTrigger.goesOff]

/-- No `KeyError` if the parameters stay the same. -/
theorem exists_processParameters (blank : Bool) {previous : Option ParamSet} {params : ParamSet}
    (hkeys : ∀ q, previous = some q → ∀ k ∈ q, k ∈ params) :
    ∃ called evts, (prepEvents blank previous).processParameters params = some (called, evts) := by
  cases previous with
  | none => exact ⟨_, _, rfl⟩
  | some q =>
    have hall : ∀ k ∈ q.keys, k ∈ params := fun k hk => hkeys q rfl k (AList.mem_keys.mpr hk)
    simp only [ParameterEventManager.processParameters, ParameterEventManager.getParamDiff,
      prepEvents, if_pos hall]
    exact ⟨_, _, rfl⟩

/-! ## Through a session -/

/-- The configurations a session has popped. -/
def Runner.popped (r : Runner) : List ParamSet := r.completed.map Prod.fst ++ r.working

/-- The session has followed the trace of the configurations it popped, and measured each. -/
structure Follows (initConfig : Config) (blank : Bool) (r : Runner) : Prop where
  events : ∃ previous, r.paramsEvts = prepEvents blank previous ∧
    (previous, r.rendered) = r.popped.foldl (prepStep initConfig blank) (none, none)
  cfg : ∀ params cfg, r.current = some (params, cfg) → cfg = currCfg initConfig params
  measured : ∀ m, m ∈ r.measured ↔ m ∈ prepTrace initConfig blank (none, none) r.popped

variable {initConfig : Config} {e : Experiment} {left : Left} {sets : List ParamSet}
  {blank : Bool}

/-- The session is about to measure `params`: they were popped last, and what was measured
before and this attempt are the trace up to them. -/
structure Measuring (initConfig : Config) (blank : Bool) (r : Runner) (params : ParamSet)
    (cfg : Config) : Prop where
  cfg_eq : cfg = currCfg initConfig params
  events : r.paramsEvts = prepEvents blank (some params)
  state : (some params, r.rendered)
    = (r.completed.map Prod.fst ++ [params]).foldl (prepStep initConfig blank) (none, none)
  measured : ∀ m, m ∈ r.measured ++ [(cfg, r.rendered)] ↔
    m ∈ prepTrace initConfig blank (none, none) (r.completed.map Prod.fst ++ [params])

theorem popped_of_current {r : Runner} {params : ParamSet} {cfg : Config}
    (hcur : r.current = some (params, cfg)) :
    r.popped = r.completed.map Prod.fst ++ [params] := by
  rw [Runner.popped, Runner.working, hcur]
  rfl

theorem popped_of_none {r : Runner} (hcur : r.current = none) :
    r.popped = r.completed.map Prod.fst := by
  rw [Runner.popped, Runner.working, hcur]
  exact List.append_nil _

/-- Another attempt on the current configuration adds nothing new to what was measured. -/
theorem Follows.current {r : Runner} {params : ParamSet} {cfg : Config}
    (h : Follows initConfig blank r) (hcur : r.current = some (params, cfg)) :
    Measuring initConfig blank r params cfg := by
  obtain ⟨previous, hevts, hfold⟩ := h.events
  have hcfg : cfg = currCfg initConfig params := h.cfg params cfg hcur
  have hmeasured := h.measured
  rw [popped_of_current hcur] at hfold hmeasured
  have hlast : (previous, r.rendered) = prepStep initConfig blank
      ((r.completed.map Prod.fst).foldl (prepStep initConfig blank) (none, none)) params := by
    rw [hfold, List.foldl_append]
    rfl
  obtain rfl : previous = some params := congrArg Prod.fst hlast
  refine ⟨hcfg, hevts, hfold, fun m => ?_⟩
  rw [List.mem_append, hmeasured, or_iff_left_of_imp]
  intro hm
  -- the last entry of the trace is the current configuration with the one rendered last
  rw [List.mem_singleton.mp hm, prepTrace_append, hcfg]
  have hrendered : r.rendered = _ := congrArg Prod.snd hlast
  exact List.mem_append_right _ (List.mem_singleton.mpr (Prod.ext rfl hrendered))

/-- Processing the next configuration is one step of the trace. -/
theorem Follows.next {r r₁ : Runner} {params : ParamSet} {cfg : Config}
    (h : Follows initConfig blank r) (hprog : Progress e left sets r)
    (hcur : r.current = none) (hnext : r.nextParams initConfig = some (r₁, params, cfg)) :
    Measuring initConfig blank r₁ params cfg := by
  obtain ⟨previous, hevts, hfold⟩ := h.events
  obtain ⟨queue, -, hhandles, -⟩ := hprog.queued
  obtain ⟨rest, called, evts, -, rfl, hproc, rfl⟩ := nextParams_cases hhandles hnext
  rw [hevts] at hproc
  obtain ⟨hcalled, rfl⟩ := processParameters_eq hproc
  have hmeasured := h.measured
  rw [popped_of_none hcur] at hfold hmeasured
  have hstep : (some params, if 0 ∈ called then some (currCfg initConfig params) else r.rendered)
      = prepStep initConfig blank (previous, r.rendered) params := by
    simp only [prepStep, hcalled]
  refine ⟨rfl, rfl, ?_, fun m => ?_⟩
  · rw [List.foldl_append, ← hfold]
    exact hstep
  · rw [prepTrace_append, ← hfold, List.mem_append, List.mem_append, hmeasured]
    refine or_congr_right ?_
    rw [prepTrace, ← hstep]
    rfl

theorem Follows.picked {r r₁ : Runner} {params : ParamSet} {cfg : Config}
    (h : Follows initConfig blank r) (hprog : Progress e left sets r)
    (hpick : Picked initConfig r r₁ params cfg) :
    Measuring initConfig blank r₁ params cfg := by
  cases hpick with
  | current hcur => exact h.current hcur
  | next hcur hnext => exact h.next hprog hcur hnext

/-- An attempt ends with its configuration completed, or with it as the current one. -/
theorem popped_attempt (r : Runner) (params : ParamSet) (cfg : Config) (a : Attempt) :
    (r.attempt params cfg a).popped = r.completed.map Prod.fst ++ [params] := by
  cases hacc : a.accepted with
  | true =>
    rw [attempt_of_accepted r params cfg hacc, popped_of_none rfl]
    show (r.completed ++ [(params, a.result)]).map Prod.fst = _
    rw [List.map_append]
    rfl
  | false =>
    obtain ⟨data, hdata⟩ := attempt_of_not_accepted r params cfg hacc
    rw [hdata, popped_of_current rfl]
    rfl

/-- An attempt is recorded, and changes nothing the trace depends on. -/
theorem attempt_frame (r : Runner) (params : ParamSet) (cfg : Config) (a : Attempt) :
    (r.attempt params cfg a).paramsEvts = r.paramsEvts ∧
      (r.attempt params cfg a).rendered = r.rendered ∧
      (r.attempt params cfg a).measured = r.measured ++ [(cfg, r.rendered)] ∧
      ∀ p c, (r.attempt params cfg a).current = some (p, c) → (p, c) = (params, cfg) := by
  cases hacc : a.accepted with
  | true =>
    rw [attempt_of_accepted r params cfg hacc]
    exact ⟨rfl, rfl, rfl, fun _ _ hcur => by cases hcur⟩
  | false =>
    obtain ⟨data, hdata⟩ := attempt_of_not_accepted r params cfg hacc
    rw [hdata]
    exact ⟨rfl, rfl, rfl, fun _ _ hcur => (Option.some.inj hcur).symm⟩

theorem Measuring.attempt {r : Runner} {params : ParamSet} {cfg : Config}
    (h : Measuring initConfig blank r params cfg) (a : Attempt) :
    Follows initConfig blank (r.attempt params cfg a) := by
  obtain ⟨hevts, hrendered, hmeasured, hcur⟩ := attempt_frame r params cfg a
  refine ⟨⟨some params, hevts.trans h.events, ?_⟩, fun p c hpc => ?_, fun m => ?_⟩
  · rw [hrendered, popped_attempt]
    exact h.state
  · cases hcur p c hpc
    exact h.cfg_eq
  · rw [hmeasured, popped_attempt]
    exact h.measured m

theorem Follows.step {r r' : Runner} {a : Attempt} (h : Follows initConfig blank r)
    (hprog : Progress e left sets r) (hstep : r.step initConfig a = some r') :
    Follows initConfig blank r' := by
  obtain ⟨r₁, params, cfg, hpick, rfl⟩ := step_cases hstep
  exact (h.picked hprog hpick).attempt a

theorem Follows.main (e : Experiment) (py : PyHash) (initConfig : Config) (left : Left)
    (rows : List DataEntry) :
    Follows initConfig (Runner.loadedParams e py left.saveFile).isNone
      (Runner.main e py left rows) where
  events := ⟨none, by
    unfold Runner.main
    cases Runner.loadedParams e py left.saveFile <;> rfl, rfl⟩
  cfg := fun _ _ hcur => by cases hcur
  measured := fun m => by
    rw [show (Runner.main e py left rows).popped = [] from rfl]
    exact Iff.rfl

/-- What is remembered is the last parameter set. -/
theorem fst_foldl_prepStep (initConfig : Config) (blank : Bool) (ps : List ParamSet) :
    (ps.foldl (prepStep initConfig blank) (none, none)).1 = ps.getLast? := by
  induction ps using List.reverseRecOn with
  | nil => rfl
  | append_singleton ps p => rw [List.foldl_append, List.getLast?_concat]; rfl

/-- The configurations of an experiment have the same parameters. -/
theorem mem_iff_of_mem_configs {p q : ParamSet} (hp : p ∈ e.configs) (hq : q ∈ e.configs)
    (k : String) : k ∈ p ↔ k ∈ q := by
  have hlen : (Runner.freshParams e).parameterNames.length
      = (Runner.freshParams e).parameterVals.length := by
    simp [Runner.freshParams, ParameterHandler.init]
  rw [mem_of_mem_configs hlen hp, mem_of_mem_configs hlen hq]

/-- Between two configurations the next one can be picked. -/
theorem exists_nextParams {r : Runner} (hprog : Progress e left sets r)
    (hfollows : Follows initConfig blank r) (hcur : r.current = none)
    (hlt : r.completed.length < sets.length) :
    ∃ r₁ params cfg, r.nextParams initConfig = some (r₁, params, cfg) := by
  obtain ⟨queue, hsets, hhandles, -⟩ := hprog.queued
  have hworking : r.working = [] := by rw [Runner.working, hcur]; rfl
  rw [hworking, List.append_nil] at hsets
  cases queue with
  | nil =>
    rw [hsets, List.append_nil, List.length_map] at hlt
    exact absurd hlt (Nat.lt_irrefl _)
  | cons p rest =>
    obtain ⟨previous, hevts, hfold⟩ := hfollows.events
    have hprevious : previous = r.popped.getLast? := by
      rw [← fst_foldl_prepStep initConfig blank, ← hfold]
    have hkeys : ∀ q, previous = some q → ∀ k ∈ q, k ∈ p := by
      intro q hq k hk
      have hmem : q ∈ sets := by
        rw [hprevious, popped_of_none hcur] at hq
        exact hsets ▸ List.mem_append_left _ (List.mem_of_getLast? hq)
      have hmem' : p ∈ sets := hsets ▸ List.mem_append_right _ List.mem_cons_self
      exact (mem_iff_of_mem_configs (hprog.mem_configs q hmem) (hprog.mem_configs p hmem') k).mp hk
    obtain ⟨called, evts, hproc⟩ := exists_processParameters blank hkeys
    simp only [Runner.nextParams, hhandles.queue.peek_cons, hhandles.queue.pop_cons, hevts, hproc]
    exact ⟨_, _, _, rfl⟩

/-- Some run measures every configuration. -/
theorem exists_run (h : Finds e sets left) (py : PyHash) (initConfig : Config)
    (rows : List DataEntry) (n : ℕ) (hn : n ≤ sets.length) :
    ∃ r, run (Runner.step initConfig) (Runner.main e py left rows)
        (List.replicate n regexCounters) = some r
      ∧ r.completed.length = n ∧ r.current = none ∧ Progress e left sets r
      ∧ Follows initConfig (Runner.loadedParams e py left.saveFile).isNone r := by
  induction n with
  | zero =>
    exact ⟨_, rfl, rfl, rfl, Progress.main h py rows, Follows.main e py initConfig left rows⟩
  | succ n ih =>
    obtain ⟨r, hrun, hlen, hcur, hprog, hfollows⟩ := ih (by omega)
    obtain ⟨r₁, params, cfg, hnext⟩ := exists_nextParams hprog hfollows hcur (by omega)
    have hstep : r.step initConfig regexCounters = some (r₁.attempt params cfg regexCounters) := by
      simp only [Runner.step, hcur, hnext, Option.map_some]
    refine ⟨_, ?_, ?_, ?_, hprog.step hstep, hfollows.step hprog hstep⟩
    · rw [List.replicate_succ', run_concat regexCounters hrun, hstep]
    · rw [attempt_of_accepted r₁ params cfg (by decide)]
      show (r₁.completed ++ [_]).length = _
      rw [(Picked.next hcur hnext).frame.2.1, List.length_append, hlen]
      rfl
    · rw [attempt_of_accepted r₁ params cfg (by decide)]
      rfl

/-! ## Every measurement of every run -/

/-- In every run from `start`, every attempt is made on a rule set prepared for its own
configuration. -/
def MeasuresPrepared (initConfig : Config) (start : Runner) : Prop :=
  ∀ as r, run (Runner.step initConfig) start as = some r → ∀ m ∈ r.measured, PreparedFor m

/-- What a session measures can be read off its sequence of configurations. -/
theorem measuresPrepared_iff_prepTrace (h : Finds e sets left) (py : PyHash) (initConfig : Config)
    (rows : List DataEntry) :
    MeasuresPrepared initConfig (Runner.main e py left rows) ↔
      ∀ m ∈ prepTrace initConfig (Runner.loadedParams e py left.saveFile).isNone
        (none, none) sets, PreparedFor m := by
  constructor
  · intro hall m hm
    obtain ⟨r, hrun, hlen, hcur, hprog, hfollows⟩ :=
      exists_run h py initConfig rows sets.length le_rfl
    obtain ⟨queue, hsets, -, -⟩ := hprog.queued
    have hpopped : r.popped = sets := by
      have hqueue : queue = [] := by
        have := congrArg List.length hsets
        rw [List.length_append, List.length_append, List.length_map, hlen] at this
        exact List.eq_nil_of_length_eq_zero (by omega)
      rw [hsets, hqueue, List.append_nil]
      rfl
    exact hall _ r hrun m ((hfollows.measured m).mpr (hpopped ▸ hm))
  · intro hall as r hrun m hm
    obtain ⟨hprog, hfollows⟩ := run_invariant
      (P := fun r => Progress e left sets r ∧ Follows initConfig
        (Runner.loadedParams e py left.saveFile).isNone r)
      (fun _ _ _ hp hs => ⟨hp.1.step hs, hp.2.step hp.1 hs⟩)
      ⟨Progress.main h py rows, Follows.main e py initConfig left rows⟩ hrun
    obtain ⟨queue, hsets, -, -⟩ := hprog.queued
    refine hall m ?_
    rw [hsets, show r.completed.map Prod.fst ++ r.working = r.popped from rfl, prepTrace_append]
    exact List.mem_append_left _ ((hfollows.measured m).mp hm)

/-- **When every measurement is made on its own rule set**: the session does not resume, one of the
three parameters is there for its first configuration, and of every two consecutive ones the second
stays prepared. -/
theorem measuresPrepared_iff (e : Experiment) (py : PyHash) (initConfig : Config)
    (earlier : List Session) (done : List ParamSet) (left : Left) (rows : List DataEntry)
    (hearlier : sessions e py initConfig .nothing earlier = some (done, left)) :
    MeasuresPrepared initConfig (Runner.main e py left rows) ↔
      (∀ p ∈ ((Runner.main e py left rows).exparams.popUntilNone).head?,
        StartsPrepared left.saveFile.isNone p) ∧
      ((Runner.main e py left rows).exparams.popUntilNone).IsChain (StaysPrepared initConfig) := by
  have hstart : Finds e e.configs .nothing := .fresh rfl rfl
  obtain ⟨sets, hsets, -⟩ := sessions_length hstart hearlier
  have hblank : (Runner.loadedParams e py left.saveFile).isNone = left.saveFile.isNone := by
    cases hsets with
    | fresh hnone _ => rw [hnone]; rfl
    | saved s hsome hs => rw [hsome, hs.loadedParams py]; rfl
  rw [measuresPrepared_iff_prepTrace hsets py initConfig rows, prepTrace_start_iff, hblank,
    (hsets.main py rows).queue.popUntilNone]

/-- A grid of two configurations that differ in one parameter. -/
def twoConfigs (name : String) (v w : String) : Experiment :=
  ⟨[("n_rules", [.int 100]), (name, [.str v, .str w])], 1, []⟩

/-- With and without patterns from `pcre` options: both are measured on the rule set of the
first. -/
theorem measuresPrepared_usePcre :
    ¬ MeasuresPrepared ∅
      (Runner.main (twoConfigs "rules_use_pcre_kw" "1" "0") ⟨fun _ => 0, fun _ => 0⟩
        .nothing []) := by
  intro h
  obtain ⟨c, hc, hagrees⟩ := h [regexCounters, regexCounters] _ rfl _
    (List.mem_cons_of_mem _ List.mem_cons_self)
  obtain rfl := Option.some.inj hc
  exact absurd (hagrees "rules_use_pcre_kw" (by decide)) (by decide)

/-- With and without the regex device, each is measured on its own rule set. -/
theorem measuresPrepared_rgxEnabled :
    MeasuresPrepared ∅
      (Runner.main (twoConfigs "rgx_enabled" "1" "0") ⟨fun _ => 0, fun _ => 0⟩ .nothing []) := by
  refine (measuresPrepared_iff _ _ ∅ [] [] .nothing [] rfl).mpr ⟨fun p hp => ?_, by decide⟩
  obtain rfl := Option.some.inj hp
  exact ⟨rfl, "rgx_enabled", by decide, by decide⟩

end Autotest
end PamoRxpBench
