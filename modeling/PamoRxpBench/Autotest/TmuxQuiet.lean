import PamoRxpBench.Autotest.TmuxPhases
import PamoRxpBench.Library.Runs

/-!
# Between two attempts

`rx_run` ends `regex-test` before its last capture, and both threads clear their panes last. So an
attempt that begins with panes without events ends with such panes, and the next one begins with
them (`quiet_of_done`).
-/

namespace PamoRxpBench
namespace Autotest

open Runs

/-! ## Where a thread ends -/

/-- `rx_run` once `regex-test` is gone. -/
def rxAfterKill : List Action :=
  [.getOutput .rx, .clear .rx] ++ remoteTmuxSend .rx .catRgxOutput true true

/-- What is left of a thread when the foreground of its pane is free: its last capture, and for
`tx_run` its wait. -/
def Remote.free : Remote → List (List Action)
  | .rx => [.getOutput .rx, .clear .rx].tails
  | .tx => (Remote.tx.wait :: remoteTmuxLaunchScript .tx .launchPktgen true) ::
      [.getOutput .tx, .clear .tx].tails

/-- The foreground is known to be free after a wait for the prompt. -/
theorem free_of_tail : ∀ t : Remote, ∀ l ∈ t.thread.tails, l.tail ∈ t.free →
    l ∈ t.free ∨ l.head? = some (.waitForPrompt t) := by
  intro t
  match t with
  | .rx => decide
  | .tx => decide

theorem not_free_of_types : ∀ t : Remote, ∀ l ∈ t.thread.tails, l.head?.any Action.types →
    l.tail ∉ t.free := by
  intro t
  match t with
  | .rx => decide
  | .tx => decide

/-- A thread ends with a clear. -/
theorem clear_of_tail_eq_nil : ∀ t : Remote, ∀ l ∈ t.thread.tails, l.tail = [] →
    l = [] ∨ l.head? = some (.clear t) := by
  intro t
  match t with
  | .rx => decide
  | .tx => decide

/-- `rx_run` types `pkill` before it waits for the end of `regex-test`. -/
theorem pkill_of_tail : ∀ l ∈ rxRun.tails, l.tail = .waitForPrompt .rx :: rxAfterKill →
    l.head? = some (.send .rx .pkillRegexTest) := by
  decide

theorem afterKill_of_tail : ∀ l ∈ rxRun.tails, l.tail ∈ rxAfterKill.tails →
    l ∈ rxAfterKill.tails ∨ l = .waitForPrompt .rx :: rxAfterKill := by
  decide

/-- The program is not started again. -/
theorem not_launch_of_afterKill : ∀ l ∈ rxAfterKill.tails,
    l.head? ≠ some (.send .rx .rxSh) := by
  decide

/-- `launch_pktgen.sh` is typed after the wait, and the foreground is free before. -/
theorem launch_of_wait : ∀ l ∈ txRun.tails, l.head? = some Remote.tx.wait →
    Action.send .tx .launchPktgen ∈ l ∧ l ∈ Remote.tx.free := by
  decide

namespace TmuxState

variable {s s' : TmuxState} {t r : Remote} {a : Action} {cmd : Cmd} {rest : List Action}

/-! ## The end of an attempt -/

/-- `regex-test` is gone after `pkill`, the foreground is free before a thread ends, and there is
no event on the pane of a thread that has ended. -/
structure Settled (s : TmuxState) : Prop where
  killing : s.rest .rx = .waitForPrompt .rx :: rxAfterKill → s.program .rx = .running →
    s.foreground .rx = some .pkillRegexTest
  killed : s.rest .rx ∈ rxAfterKill.tails → s.program .rx ≠ .running
  free : ∀ t, s.rest t ∈ t.free → s.foreground t = none
  quiet : ∀ t, s.rest t = [] → ∀ e own, .event e own ∉ s.panes t

theorem Settled.init (panes : Remote → List Line) : Settled (init panes) where
  killing := fun heq => absurd (show rxRun = _ from heq) (by decide)
  killed := fun hmem => absurd (show rxRun ∈ _ from hmem) (by decide)
  free := fun _ _ => rfl
  quiet := by
    intro t ht
    match t with
    | .rx => exact absurd (show rxRun = [] from ht) (by decide)
    | .tx => exact absurd (show txRun = [] from ht) (by decide)

theorem nil_mem_free (t : Remote) : [] ∈ t.free := by
  match t with
  | .rx => decide
  | .tx => decide

/-- A thread goes on after anything but typing a command. -/
theorem Settled.goOn (h : Settled s) (hp : Phased s) (hrest : s.rest t = a :: rest)
    (htypes : ¬ a.types) (hprompt : a = .waitForPrompt t → s.foreground t = none)
    (hclear : a = .clear t → s.panes t = []) : Settled (s.goOn t rest) := by
  have htails := hp.mem_tails t
  rw [hrest] at htails
  have hother : ∀ q, q ≠ t → (s.goOn t rest).rest q = s.rest q :=
    fun q hq => s.goOn_rest_of_ne rest hq
  refine ⟨fun heq hprogram => ?_, fun hmem => ?_, fun q hq => ?_, fun q hq => ?_⟩
  · by_cases ht : .rx = t
    · subst ht
      rw [goOn_rest_self] at heq
      have hsend := Option.some.inj (pkill_of_tail _ htails heq)
      rw [hsend] at htypes
      exact absurd rfl htypes
    · rw [hother _ ht] at heq
      exact h.killing heq hprogram
  · by_cases ht : .rx = t
    · subst ht
      rw [goOn_rest_self] at hmem
      rcases afterKill_of_tail _ htails hmem with hmem | heq
      · rw [← hrest] at hmem
        exact h.killed hmem
      -- the prompt was found, so `pkill` is not in the foreground any more
      · intro hprogram
        have hforeground := h.killing (hrest.trans heq) hprogram
        rw [hprompt (List.cons.inj heq).1] at hforeground
        cases hforeground
    · rw [hother _ ht] at hmem
      exact h.killed hmem
  · show s.foreground q = none
    by_cases ht : q = t
    · subst ht
      rw [goOn_rest_self] at hq
      rcases free_of_tail q _ htails hq with hfree | hhead
      · rw [← hrest] at hfree
        exact h.free q hfree
      · exact hprompt (Option.some.inj hhead)
    · rw [hother _ ht] at hq
      exact h.free q hq
  · intro e own hl
    have hpane : .event e own ∈ s.panes q := hl
    by_cases ht : q = t
    · subst ht
      rw [goOn_rest_self] at hq
      rcases clear_of_tail_eq_nil q _ htails hq with hnil | hhead
      · cases hnil
      · rw [hclear (Option.some.inj hhead)] at hpane
        exact absurd hpane List.not_mem_nil
    · rw [hother _ ht] at hq
      exact h.quiet q hq e own hpane

/-- `tx_run` returns from its wait. -/
theorem Settled.stop_tx (h : Settled s) (hp : Phased s)
    (hrest : s.rest .tx = Remote.tx.wait :: rest) : Settled (s.goOn .tx []) := by
  have htails := hp.mem_tails .tx
  rw [hrest] at htails
  have hwait := launch_of_wait _ htails rfl
  rw [← hrest] at hwait
  refine ⟨h.killing, h.killed, fun q hq => ?_, fun q hq e own hl => ?_⟩
  · match q with
    | .rx => exact h.free .rx hq
    | .tx => exact h.free .tx hwait.2
  · match q with
    | .rx => exact h.quiet .rx hq e own hl
    | .tx =>
      match own with
      -- `launch_pktgen.sh` was not started
      | true =>
        have hidle := hp.idle .tx hwait.1
        rw [(hp.own .tx e hl).2] at hidle
        cases hidle
      | false => exact hp.copy_tx e hl

theorem Settled.clear (h : Settled s) (r : Remote) : Settled (s.clear r) :=
  ⟨h.killing, h.killed, h.free, fun q hq e own hl => h.quiet q hq e own (mem_clear_panes hl).1⟩

theorem Settled.capture (h : Settled s) (r : Remote) : Settled (s.capture r) :=
  ⟨h.killing, h.killed, h.free, h.quiet⟩

theorem Settled.poll (h : Settled s) (polled : Remote → Bool) :
    Settled { s with polled := polled } :=
  ⟨h.killing, h.killed, h.free, h.quiet⟩

theorem Settled.append (h : Settled s) {line : Line}
    (hline : s.rest r = [] → ∀ e own, line ≠ .event e own) : Settled (s.append r line) := by
  refine ⟨h.killing, h.killed, h.free, fun q hq e own hl => ?_⟩
  rcases mem_append_panes hl with hl | ⟨hqr, heq⟩
  · exact h.quiet q hq e own hl
  · subst hqr
    exact hline hq e own heq.symm

theorem Settled.setProgram (h : Settled s) {p : Program} (hne : p ≠ .running) (r : Remote) :
    Settled (s.setProgram r p) := by
  have hrunning : (s.setProgram r p).program .rx = .running → s.program .rx = .running := by
    intro hp
    by_cases hr : .rx = r
    · subst hr
      rw [setProgram_program_self] at hp
      exact absurd hp hne
    · rwa [s.setProgram_program_of_ne p hr] at hp
  exact ⟨fun heq hp => h.killing heq (hrunning hp), fun hmem hp => h.killed hmem (hrunning hp),
    h.free, h.quiet⟩

theorem Settled.announce (h : Settled s) (hp : Phased s) (hr : s.program r = .running) :
    Settled (s.announce r) := by
  refine (h.setProgram (by decide) r).append fun hnil => ?_
  have hnil : s.rest r = [] := hnil
  match r with
  | .rx =>
    have hmem : s.rest .rx ∈ rxAfterKill.tails := by
      rw [hnil]
      decide
    exact absurd hr (h.killed hmem)
  | .tx =>
    have hforeground := h.free .tx (hnil ▸ nil_mem_free .tx)
    rw [hp.pktgen hr] at hforeground
    cases hforeground

/-- A program that runs after another one was killed ran before. -/
theorem running_of_kill {q : Remote} {p : Program}
    (hp : (s.setProgram r p.kill).program q = .running) : q ≠ r ∧ s.program q = .running := by
  by_cases hq : q = r
  · rw [hq, setProgram_program_self] at hp
    exact absurd hp (Program.kill_ne_running p)
  · rw [setProgram_program_of_ne _ _ hq] at hp
    exact ⟨hq, hp⟩

theorem Settled.ended (h : Settled s) (hcmd : s.foreground r = some cmd) :
    Settled (s.ended r cmd) := by
  have hfree : ∀ q, s.rest q ∈ q.free → (s.setForeground r none).foreground q = none := by
    intro q hq
    by_cases hqr : q = r
    · subst hqr
      rw [setForeground_foreground_self]
    · rw [s.setForeground_foreground_of_ne none hqr]
      exact h.free q hq
  unfold TmuxState.ended
  split
  · refine ⟨fun heq hp => ?_, fun hmem hp => h.killed hmem (running_of_kill hp).2, hfree, h.quiet⟩
    obtain ⟨hr, hrunning⟩ := running_of_kill hp
    show (s.setForeground r none).foreground .rx = _
    rw [s.setForeground_foreground_of_ne none hr]
    exact h.killing heq hrunning
  · rename_i hne
    refine ⟨fun heq hp => ?_, h.killed, hfree, h.quiet⟩
    by_cases hr : .rx = r
    · subst hr
      have hkilling := h.killing heq hp
      rw [hcmd] at hkilling
      exact absurd (Option.some.inj hkilling) hne
    · rw [s.setForeground_foreground_of_ne none hr]
      exact h.killing heq hp

/-- After typing a command `rx_run` waits for the end of `regex-test` only if it was `pkill`. -/
theorem Settled.send_killing (h : Settled s) (hp : Phased s)
    (hrest : s.rest t = .send t cmd :: rest)
    (heq : (s.goOn t rest).rest .rx = .waitForPrompt .rx :: rxAfterKill)
    (hprogram : (s.send t cmd).program .rx = .running) :
    (s.send t cmd).foreground .rx = some .pkillRegexTest := by
  rw [send_foreground]
  by_cases ht : .rx = t
  · subst ht
    have htails := hp.mem_tails .rx
    rw [hrest] at htails
    rw [goOn_rest_self] at heq
    have hcmd := Option.some.inj (pkill_of_tail _ htails heq)
    injection hcmd with _ hcmd
    rw [if_pos rfl, hcmd]
  · rw [s.goOn_rest_of_ne rest ht] at heq
    rw [send_program, if_neg fun hc => ht hc.1] at hprogram
    rw [if_neg ht]
    exact h.killing heq hprogram

/-- Once `regex-test` is gone it is not started. -/
theorem Settled.send_killed (h : Settled s) (hp : Phased s)
    (hrest : s.rest t = .send t cmd :: rest)
    (hmem : (s.goOn t rest).rest .rx ∈ rxAfterKill.tails) :
    (s.send t cmd).program .rx ≠ .running := by
  by_cases ht : .rx = t
  · subst ht
    have htails := hp.mem_tails .rx
    rw [hrest] at htails
    rw [goOn_rest_self] at hmem
    rcases afterKill_of_tail _ htails hmem with hmem | heq
    · have hcmd : cmd ≠ .rxSh := by
        intro hcmd
        exact not_launch_of_afterKill _ hmem (congrArg (fun c => some (Action.send .rx c)) hcmd)
      rw [send_program, if_neg fun hc => hcmd hc.2]
      rw [← hrest] at hmem
      exact h.killed hmem
    · cases heq
  · rw [s.goOn_rest_of_ne rest ht] at hmem
    rw [send_program, if_neg fun hc => ht hc.1]
    exact h.killed hmem

/-- A thread types a command and goes on. -/
theorem Settled.send (h : Settled s) (hp : Phased s) (hrest : s.rest t = .send t cmd :: rest) :
    Settled ((s.send t cmd).goOn t rest) := by
  have htails := hp.mem_tails t
  rw [hrest] at htails
  -- the foreground is not free, so the thread is not done either
  have hnotFree := not_free_of_types t _ htails rfl
  refine ⟨fun heq hprogram => ?_, fun hmem => ?_, fun q hq => ?_, fun q hq e own hl => ?_⟩
  · rw [send_goOn_rest] at heq
    exact h.send_killing hp hrest heq hprogram
  · rw [send_goOn_rest] at hmem
    exact h.send_killed hp hrest hmem
  · rw [send_goOn_rest] at hq
    show (s.send t cmd).foreground q = none
    by_cases ht : q = t
    · subst ht
      rw [goOn_rest_self] at hq
      exact absurd hq hnotFree
    · rw [s.goOn_rest_of_ne rest ht] at hq
      rw [send_foreground, if_neg ht]
      exact h.free q hq
  · rw [send_goOn_rest] at hq
    have hpane : .event e own ∈ (s.send t cmd).panes q := hl
    rw [send_panes] at hpane
    by_cases ht : q = t
    · subst ht
      rw [goOn_rest_self] at hq
      rw [List.tail_cons, hq] at hnotFree
      exact hnotFree (nil_mem_free q)
    · rw [s.goOn_rest_of_ne rest ht] at hq
      exact h.quiet q hq e own hpane

/-- Every step keeps this, whoever makes it. -/
theorem Settled.step (h : Settled s) (hp : Phased s) {b : TmuxStep}
    (hstep : s.step b = some s') : Settled s' := by
  cases hp.moves hstep with
  | @clear t _ hrest =>
    exact (h.clear t).goOn (hp.clear t) hrest Bool.false_ne_true (fun heq => by cases heq)
      fun _ => s.clear_panes_self t
  | send hrest => exact h.send hp hrest
  | waitForPrompt hrest hfree =>
    exact h.goOn hp hrest Bool.false_ne_true (fun _ => hfree) fun heq => by cases heq
  | getOutput hrest =>
    exact h.goOn hp hrest Bool.false_ne_true (fun heq => by cases heq) fun heq => by cases heq
  | @found t _ hrest hsearch =>
    match t with
    | .rx =>
      exact (h.capture _).goOn (hp.capture _) hrest Bool.false_ne_true (fun heq => by cases heq)
        fun heq => by cases heq
    | .tx =>
      exact (h.capture _).goOn (hp.capture _) hrest Bool.false_ne_true (fun heq => by cases heq)
        fun heq => by cases heq
  | poll t => exact (h.capture _).poll _
  | giveUp_rx hrest =>
    exact (h.capture .tx).goOn (hp.capture .tx) hrest Bool.false_ne_true
      (fun heq => by cases heq) fun heq => by cases heq
  | giveUp_tx hrest => exact (h.capture .rx).stop_tx (hp.capture .rx) hrest
  | print hrunning => exact h.announce hp hrunning
  | output r => exact h.append fun _ _ _ he => by cases he
  | showLog hcat hprinted =>
    refine h.append fun hnil => ?_
    -- `cat` is over before `rx_run` ends
    have hforeground := h.free .rx (hnil ▸ nil_mem_free .rx)
    rw [hcat] at hforeground
    cases hforeground
  | finish hcmd hlaunch => exact h.ended hcmd

/-- When both threads of an attempt are done, there is no event on the panes, the foregrounds are
free, and no program is left that could print one: the next attempt begins like this one. -/
theorem quiet_of_done (panes : Remote → List Line) (hquiet : Quiet panes) (steps : List TmuxStep)
    (s : TmuxState) (hrun : run TmuxState.step (TmuxState.init panes) steps = some s)
    (hdone : ∀ t, s.rest t = []) :
    Quiet s.panes ∧ ∀ r, s.foreground r = none ∧ s.program r ≠ .running := by
  have hinv : Phased s ∧ Settled s := by
    refine run_invariant (P := fun u => Phased u ∧ Settled u) (fun u b v hu hstep => ?_)
      ⟨Phased.init hquiet, Settled.init panes⟩ hrun
    exact ⟨hu.1.step hstep, hu.2.step hu.1 hstep⟩
  have hfree : ∀ r, s.foreground r = none := fun r => hinv.2.free r (hdone r ▸ nil_mem_free r)
  refine ⟨fun r => hinv.2.quiet r (hdone r), fun r => ⟨hfree r, fun hp => ?_⟩⟩
  match r with
  | .rx =>
    have hmem : s.rest .rx ∈ rxAfterKill.tails := by
      rw [hdone .rx]
      decide
    exact hinv.2.killed hmem hp
  | .tx =>
    have hforeground := hfree .tx
    rw [hinv.1.pktgen hp] at hforeground
    cases hforeground

end TmuxState

end Autotest
end PamoRxpBench
