import PamoRxpBench.Autotest.TmuxPhases
import PamoRxpBench.Library.Runs

/-!
# Which events are lost

A pane is cleared by one thread while the other polls it. In a run whose steps are `InTime` the
events are heard in time (`Heard`), and no line of a program is cleared before it was captured
(`lost_eq_false`). With the steps that are excluded, either event can be lost.
-/

namespace PamoRxpBench
namespace Autotest

open Runs

/-! ## Where the clears and the waits are -/

/-- `rx_run` clears the pane after the launch only when its wait is over. -/
theorem wait_of_clear_rx : ∀ l ∈ rxAfterLaunch.tails, l.head? = some (.clear .rx) →
    Remote.rx.wait ∉ l := by
  decide

/-- `rx_run` prints the log when its wait is over. -/
theorem wait_of_not_cat : ∀ l ∈ rxAfterLaunch.tails, .send .rx .catRgxOutput ∉ l →
    Remote.rx.wait ∉ l := by
  decide

/-- The only clear of `tx_run` after `launch_pktgen.sh` is its last action. -/
theorem eq_clear_of_launched : ∀ l ∈ txRun.tails, l.head? = some (.clear .tx) →
    .send .tx .launchPktgen ∉ l → l = [.clear .tx] := by
  decide

/-- Before its output is captured, the prompt after `launch_pktgen.sh` is waited for. -/
theorem head_of_tail_eq : ∀ l ∈ txRun.tails, l.tail = [.getOutput .tx, .clear .tx] →
    l.head? = some (.waitForPrompt .tx) := by
  decide

theorem head_of_tail_eq_clear : ∀ l ∈ txRun.tails, l.tail = [.clear .tx] →
    l = [.getOutput .tx, .clear .tx] := by
  decide

/-- `launch_pktgen.sh` is typed after the wait. -/
theorem wait_of_launch : ∀ l ∈ txRun.tails, l.head? = some (.send .tx .launchPktgen) →
    Remote.tx.wait ∉ l := by
  decide

theorem Program.eq_announced_of_kill : ∀ {p : Program}, p.kill = .announced → p = .announced
  | .announced, _ => rfl

theorem Program.ne_idle_of_kill {p : Program} (h : p.kill ≠ .idle) : p ≠ .idle := by
  intro hp
  rw [hp] at h
  exact h rfl

namespace TmuxState

variable {s s' : TmuxState} {t r : Remote} {a : Action} {cmd : Cmd} {rest : List Action}

/-- The event of a program was captured if it was printed. -/
def Seen (s : TmuxState) (r : Remote) : Prop := s.program r = .announced → s.captured r = true

instance (s : TmuxState) (r : Remote) : Decidable (s.Seen r) :=
  inferInstanceAs (Decidable (_ → _))

/-- The steps that lose no line: `starting-rx` is printed while `rx_run` waits for `stopped-tx`;
that wait does not run out while `starting-rx` is unseen; and the prompt after `launch_pktgen.sh`
is not found while `stopped-tx` is unseen. -/
def InTime (s : TmuxState) : TmuxStep → Prop
  | .print .rx => s.rest .rx = rxAfterLaunch
  | .timeout .rx => s.Seen .rx
  | .thread .tx =>
    s.rest .tx = [.waitForPrompt .tx, .getOutput .tx, .clear .tx] → s.Seen .tx
  | _ => True

instance decidableInTime (s : TmuxState) : ∀ a, Decidable (s.InTime a)
  | .print .rx => inferInstanceAs (Decidable (_ = _))
  | .timeout .rx => inferInstanceAs (Decidable (s.Seen .rx))
  | .thread .tx => inferInstanceAs (Decidable (_ → _))
  | .thread .rx => isTrue trivial
  | .timeout .tx => isTrue trivial
  | .print .tx => isTrue trivial
  | .output _ => isTrue trivial
  | .showLog => isTrue trivial
  | .finish _ => isTrue trivial

theorem Seen.capture (h : s.Seen t) : (s.capture r).Seen t := fun hp => capture_captured (h hp)

/-! ## What holds in a run whose steps are in time -/

/-- The events are heard in time: `starting-rx` by `tx_run` before it goes on, and before `rx_run`
does; `stopped-tx` by `rx_run` before `tx_run` captures its output. -/
structure Heard (s : TmuxState) : Prop where
  copy : ∀ e, .event e false ∈ s.panes .rx → s.captured .rx = true
  launched : s.program .rx = .announced → s.rest .rx ∈ rxAfterLaunch.tails
  waited : Remote.rx.wait ∉ s.rest .rx → s.Seen .rx
  heard_tx : Remote.tx.wait ∉ s.rest .tx → .send .tx .launchPktgen ∈ s.rest .tx →
    s.captured .rx = true
  started_tx : s.program .tx ≠ .idle → s.captured .rx = true
  output_tx : s.rest .tx = [.getOutput .tx, .clear .tx] ∨ s.rest .tx = [.clear .tx] →
    s.captured .tx = true
  kept : ∀ r, s.lost r = false

theorem Heard.init {panes : Remote → List Line} (h : Quiet panes) : Heard (init panes) where
  copy := fun e hl => absurd hl (h .rx e false)
  launched := fun hp => by cases hp
  waited := fun _ hp => by cases hp
  heard_tx := fun hwait => absurd (show _ ∈ txRun by decide) hwait
  started_tx := fun hp => absurd rfl hp
  output_tx := fun heq => absurd (show txRun = _ ∨ txRun = _ from heq) (by decide)
  kept := fun _ => rfl

theorem Heard.goOn_rx (h : Heard s) (hrest : s.rest .rx = a :: rest)
    (hwait : a = Remote.rx.wait → s.Seen .rx) : Heard (s.goOn .rx rest) where
  copy := h.copy
  launched := by
    intro hp
    have hmem := h.launched hp
    rw [hrest, List.mem_tails] at hmem
    rw [goOn_rest_self, List.mem_tails]
    exact (List.suffix_cons a rest).trans hmem
  waited := by
    intro hnot
    by_cases ha : a = Remote.rx.wait
    · exact hwait ha
    · apply h.waited
      intro hmem
      exact hnot (mem_goOn_of_mem hrest hmem fun _ heq => ha heq.symm)
  heard_tx := h.heard_tx
  started_tx := h.started_tx
  output_tx := h.output_tx
  kept := h.kept

theorem Heard.goOn_tx (h : Heard s) (htails : s.rest .tx ∈ txRun.tails)
    (hrest : s.rest .tx = a :: rest)
    (hwait : a = Remote.tx.wait → s.captured .rx = true)
    (hprompt : s.rest .tx = [.waitForPrompt .tx, .getOutput .tx, .clear .tx] →
      s.captured .tx = true) : Heard (s.goOn .tx rest) where
  copy := h.copy
  launched := h.launched
  waited := h.waited
  heard_tx := by
    intro hnot hmem
    by_cases ha : a = Remote.tx.wait
    · exact hwait ha
    · apply h.heard_tx
      · intro hmem
        exact hnot (mem_goOn_of_mem hrest hmem fun _ heq => ha heq.symm)
      · exact mem_of_mem_goOn hrest hmem
  started_tx := h.started_tx
  output_tx := by
    rw [goOn_rest_self]
    rw [hrest] at htails
    intro heq
    rcases heq with heq | heq
    -- the prompt after `launch_pktgen.sh` was found
    · have hhead := head_of_tail_eq _ htails heq
      apply hprompt
      rw [hrest, Option.some.inj hhead, heq]
    · apply h.output_tx
      left
      rw [hrest]
      exact head_of_tail_eq_clear _ htails heq
  kept := h.kept

/-- `tx_run` returns. -/
theorem Heard.stop_tx (h : Heard s) : Heard (s.goOn .tx []) where
  copy := h.copy
  launched := h.launched
  waited := h.waited
  heard_tx := by
    intro _ hmem
    rw [goOn_rest_self] at hmem
    exact absurd hmem List.not_mem_nil
  started_tx := h.started_tx
  output_tx := by
    rw [goOn_rest_self]
    intro heq
    rcases heq with heq | heq
    · cases heq
    · cases heq
  kept := h.kept

theorem Heard.capture (h : Heard s) (r : Remote) : Heard (s.capture r) where
  copy := fun e hl => capture_captured (h.copy e hl)
  launched := h.launched
  waited := fun hnot => (h.waited hnot).capture
  heard_tx := fun hnot hmem => capture_captured (h.heard_tx hnot hmem)
  started_tx := fun hp => capture_captured (h.started_tx hp)
  output_tx := fun heq => capture_captured (h.output_tx heq)
  kept := h.kept

theorem Heard.poll (h : Heard s) (polled : Remote → Bool) : Heard { s with polled := polled } :=
  ⟨h.copy, h.launched, h.waited, h.heard_tx, h.started_tx, h.output_tx, h.kept⟩

/-- The line that a thread clears was captured before. -/
theorem Heard.captured_of_clear (h : Heard s) (hp : Phased s)
    (hrest : s.rest r = .clear r :: rest) (hl : .event r.event true ∈ s.panes r) :
    s.captured r = true := by
  have hannounced := (hp.own r r.event hl).2
  match r with
  -- `regex-test` was launched, and `rx_run` clears next when its wait is over
  | .rx =>
    have htails := h.launched hannounced
    apply h.waited ?_ hannounced
    rw [hrest] at htails ⊢
    exact wait_of_clear_rx _ htails rfl
  -- `launch_pktgen.sh` was launched, and only the last clear is left
  | .tx =>
    have htails := hp.mem_tails .tx
    have hlaunch : .send .tx .launchPktgen ∉ s.rest .tx := by
      intro hmem
      rw [hp.idle .tx hmem] at hannounced
      cases hannounced
    apply h.output_tx
    right
    rw [hrest] at htails hlaunch ⊢
    exact eq_clear_of_launched _ htails rfl hlaunch

/-- A thread clears its pane when it has captured what it needs of it. -/
theorem Heard.clear (h : Heard s) (hp : Phased s) (hrest : s.rest r = .clear r :: rest) :
    Heard (s.clear r) where
  copy := fun e hl => h.copy e (mem_clear_panes hl).1
  launched := h.launched
  waited := h.waited
  heard_tx := h.heard_tx
  started_tx := h.started_tx
  output_tx := h.output_tx
  kept := by
    intro q
    have hlost : (s.lost r || (s.holdsLine r && !s.captured r)) = false := by
      rw [h.kept r, Bool.false_or]
      by_cases hl : .event r.event true ∈ s.panes r
      · rw [h.captured_of_clear hp hrest hl, Bool.not_true, Bool.and_false]
      · rw [holdsLine, decide_eq_false hl, Bool.false_and]
    by_cases hq : q = r
    · subst hq
      show Function.update s.lost q _ q = false
      rw [Function.update_self, hlost]
    · show Function.update s.lost r _ q = false
      rw [Function.update_of_ne hq, h.kept q]

/-- Of the copies, `tx_run` captured what they are copies of. -/
theorem Heard.append (h : Heard s) {line : Line}
    (hcopy : ∀ e, line = .event e false → s.captured .rx = true) : Heard (s.append r line) where
  copy := by
    intro e hl
    rcases mem_append_panes hl with hl | ⟨-, hl⟩
    · exact h.copy e hl
    · exact hcopy e hl.symm
  launched := h.launched
  waited := h.waited
  heard_tx := h.heard_tx
  started_tx := h.started_tx
  output_tx := h.output_tx
  kept := h.kept

theorem Heard.setForeground (h : Heard s) (r : Remote) (cmd : Option Cmd) :
    Heard (s.setForeground r cmd) :=
  ⟨h.copy, h.launched, h.waited, h.heard_tx, h.started_tx, h.output_tx, h.kept⟩

theorem Heard.setProgram (h : Heard s) {p : Program}
    (hlaunched : r = .rx → p = .announced → s.rest .rx ∈ rxAfterLaunch.tails)
    (hwaited : r = .rx → p = .announced → Remote.rx.wait ∉ s.rest .rx → s.captured .rx = true)
    (hstarted : r = .tx → p ≠ .idle → s.captured .rx = true) : Heard (s.setProgram r p) where
  copy := h.copy
  launched := by
    intro hp
    by_cases hr : .rx = r
    · rw [← hr, setProgram_program_self] at hp
      exact hlaunched hr.symm hp
    · rw [s.setProgram_program_of_ne p hr] at hp
      exact h.launched hp
  waited := by
    intro hnot hp
    by_cases hr : .rx = r
    · rw [← hr, setProgram_program_self] at hp
      exact hwaited hr.symm hp hnot
    · rw [s.setProgram_program_of_ne p hr] at hp
      exact h.waited hnot hp
  heard_tx := h.heard_tx
  started_tx := by
    intro hp
    by_cases hr : .tx = r
    · rw [← hr, setProgram_program_self] at hp
      exact hstarted hr.symm hp
    · rw [s.setProgram_program_of_ne p hr] at hp
      exact h.started_tx hp
  output_tx := h.output_tx
  kept := h.kept

/-- A line that is printed in time is printed while the thread waits for it. -/
theorem Heard.announce (h : Heard s) (hr : s.program r = .running) (hin : s.InTime (.print r)) :
    Heard (s.announce r) := by
  have hprogram : Heard (s.setProgram r .announced) := by
    match r with
    | .rx =>
      have hrest : s.rest .rx = rxAfterLaunch := hin
      refine h.setProgram (fun _ _ => ?_) (fun _ _ hnot => ?_) fun hr => by cases hr
      · rw [hrest, List.mem_tails]
      · rw [hrest] at hnot
        exact absurd List.mem_cons_self hnot
    | .tx =>
      refine h.setProgram (fun hr => by cases hr) (fun hr => by cases hr) fun _ _ => ?_
      apply h.started_tx
      rw [hr]
      decide
  exact hprogram.append fun e he => by cases he

theorem Heard.ended (h : Heard s) (r : Remote) (cmd : Cmd) : Heard (s.ended r cmd) := by
  have hnone := h.setForeground r none
  unfold TmuxState.ended
  split
  · refine hnone.setProgram (fun hr hp => ?_) (fun hr hp hnot => ?_) fun hr hp => ?_
    · subst hr
      exact h.launched (Program.eq_announced_of_kill hp)
    · subst hr
      exact h.waited hnot (Program.eq_announced_of_kill hp)
    · subst hr
      exact h.started_tx (Program.ne_idle_of_kill hp)
  · exact hnone

theorem Heard.send (h : Heard s) (hp : Phased s) (hrest : s.rest r = .send r cmd :: rest) :
    Heard (s.send r cmd) := by
  unfold TmuxState.send
  split
  · rename_i hcmd
    subst hcmd
    refine (h.setForeground r _).setProgram (fun _ hp => by cases hp) (fun _ hp => by cases hp)
      fun hr _ => ?_
    subst hr
    have htails := hp.mem_tails .tx
    rw [hrest] at htails
    apply h.heard_tx
    · rw [hrest]
      exact wait_of_launch _ htails rfl
    · rw [hrest]
      exact List.mem_cons_self
  · exact h.setForeground r _

/-- Once an event is found on the pane of a remote, the line of its program was captured. -/
theorem Heard.captured_of_found (h : Heard s) (hp : Phased s)
    (hfound : ∃ e own, .event e own ∈ s.panes .rx) : (s.capture .rx).captured .rx = true := by
  obtain ⟨e, own, hl⟩ := hfound
  match own with
  | true =>
    apply capture_captured_of_mem
    rwa [← (hp.own .rx e hl).1]
  | false => exact capture_captured (h.copy e hl)

/-- If an event is found on the pane of `tx`, then `tx_run` had heard of `starting-rx`. -/
theorem Heard.seen_of_found (h : Heard s) (hp : Phased s)
    (hfound : ∃ e own, .event e own ∈ s.panes .tx) : s.Seen .rx := by
  intro _
  obtain ⟨e, own, hl⟩ := hfound
  match own with
  | true =>
    apply h.started_tx
    rw [(hp.own .tx e hl).2]
    decide
  | false => exact absurd hl (hp.copy_tx e)

/-- The prompt after `launch_pktgen.sh` is free: `stopped-tx` was printed. -/
theorem Phased.announced_of_prompt (h : Phased s) (hforeground : s.foreground .tx = none)
    (hrest : s.rest .tx = [.waitForPrompt .tx, .getOutput .tx, .clear .tx]) :
    s.program .tx = .announced := by
  match hprogram : s.program .tx with
  | .idle =>
    exact absurd hprogram (h.started_tx (by rw [hrest]; decide) (by rw [hrest]; decide))
  | .running =>
    rw [h.pktgen hprogram] at hforeground
    cases hforeground
  | .announced => rfl

/-- A thread goes on after anything but its wait, and `tx_run` after anything but the last wait for
the prompt. -/
theorem Heard.goOn (h : Heard s) (htails : s.rest .tx ∈ txRun.tails) (hrest : s.rest t = a :: rest)
    (hwait : ¬ a.awaits) (hprompt : ∀ r, a ≠ .waitForPrompt r) : Heard (s.goOn t rest) := by
  match t with
  | .rx =>
    refine h.goOn_rx hrest fun ha => ?_
    rw [ha] at hwait
    exact absurd rfl hwait
  | .tx =>
    refine h.goOn_tx htails hrest (fun ha => ?_) fun heq => ?_
    · rw [ha] at hwait
      exact absurd rfl hwait
    · rw [hrest] at heq
      injection heq with heq
      exact absurd heq (hprompt .tx)

/-- Every step in time keeps this. -/
theorem Heard.step (h : Heard s) (hp : Phased s) {b : TmuxStep} (hin : s.InTime b)
    (hstep : s.step b = some s') : Heard s' := by
  have htails := hp.mem_tails .tx
  cases hp.moves hstep with
  | clear hrest =>
    exact (h.clear hp hrest).goOn htails hrest Bool.false_ne_true fun _ heq => by cases heq
  | @send t cmd rest hrest =>
    have htails' : (s.send t cmd).rest .tx ∈ txRun.tails := by
      rwa [send_rest]
    have hrest' : (s.send t cmd).rest t = .send t cmd :: rest := by
      rw [send_rest, hrest]
    exact (h.send hp hrest).goOn htails' hrest' Bool.false_ne_true fun _ heq => by cases heq
  | @waitForPrompt t _ hrest hfree =>
    match t with
    | .rx => exact h.goOn_rx hrest fun heq => by cases heq
    | .tx =>
      refine h.goOn_tx htails hrest (fun heq => by cases heq) fun heq => ?_
      exact hin heq (hp.announced_of_prompt hfree heq)
  | getOutput hrest => exact h.goOn htails hrest Bool.false_ne_true fun _ heq => by cases heq
  | @found t _ hrest hfound =>
    match t with
    | .rx => exact (h.capture .tx).goOn_rx hrest fun _ => (h.seen_of_found hp hfound).capture
    | .tx =>
      refine (h.capture .rx).goOn_tx htails hrest (fun _ => h.captured_of_found hp hfound)
        fun heq => ?_
      have heq := hrest.symm.trans heq
      cases heq
  | poll t => exact (h.capture _).poll _
  | giveUp_rx hrest => exact (h.capture .tx).goOn_rx hrest fun _ => Seen.capture hin
  | giveUp_tx hrest => exact (h.capture .rx).stop_tx
  | print hrunning => exact h.announce hrunning hin
  | output r => exact h.append fun _ he => by cases he
  | showLog hcat hprinted =>
    -- the log is printed when the wait of `rx_run` is over
    refine h.append fun _ _ => h.waited ?_ hprinted
    exact wait_of_not_cat _ (h.launched hprinted) (hp.cat hcat)
  | @finish r cmd hcmd hlaunch => exact h.ended r cmd

/-! ## Lost events -/

/-- In every run whose steps are in time, no line of a program is cleared before the other thread
has captured a pane with it. -/
theorem lost_eq_false (panes : Remote → List Line) (hquiet : Quiet panes) (steps : List TmuxStep)
    (hin : Meets TmuxState.step InTime (init panes) steps) (s : TmuxState)
    (hrun : run TmuxState.step (init panes) steps = some s) (r : Remote) : s.lost r = false := by
  have hinv : Phased s ∧ Heard s := by
    refine run_invariant_of_meets (P := fun u => Phased u ∧ Heard u)
      (fun u b v hu hin hstep => ?_) ⟨Phased.init hquiet, Heard.init hquiet⟩ hin hrun
    exact ⟨hu.1.step hstep, hu.2.step hu.1 hin hstep⟩
  exact hinv.2.kept r

/-- Only a prompt on the panes. -/
def prompts : Remote → List Line := fun _ => [.text]

theorem quiet_prompts : Quiet prompts := by
  intro r e own hl
  cases List.mem_singleton.mp hl

/-- Commands are typed and end: `remote_tmux_ensure_dir`. -/
def ensureDirSteps (t : Remote) : List TmuxStep :=
  [.thread t, .thread t, .finish t, .thread t, .thread t, .thread t, .finish t, .thread t]

/-- `rx_run` launches its script, `regex-test` starts, `tx_run` hears of it and launches its own,
which ends. -/
def upToStopped : List TmuxStep :=
  ensureDirSteps .rx ++ List.replicate 4 (.thread .rx) ++ [.finish .rx, .print .rx] ++
    ensureDirSteps .tx ++ [.thread .tx] ++ ensureDirSteps .tx ++
    [.thread .tx, .thread .tx, .print .tx, .finish .tx]

/-- `rx_run` polls before `tx_run` finds the prompt, and both threads end. -/
def pollFirst : List TmuxStep :=
  upToStopped ++ [.thread .rx] ++ List.replicate 3 (.thread .tx) ++
    [.thread .rx, .thread .rx, .finish .rx] ++ List.replicate 5 (.thread .rx) ++
    [.showLog, .finish .rx] ++ List.replicate 3 (.thread .rx)

set_option maxRecDepth 8000 in
theorem lost_eq_false_pollFirst :
    ∃ s, run TmuxState.step (TmuxState.init prompts) pollFirst = some s ∧
      s.rest = (fun _ => []) ∧ s.lost .rx = false ∧ s.lost .tx = false := by
  have hin : Meets TmuxState.step InTime (TmuxState.init prompts) pollFirst := by decide
  obtain ⟨s, hrun, hrest⟩ : ∃ s, run TmuxState.step (TmuxState.init prompts) pollFirst = some s ∧
      s.rest = fun _ => [] := by
    refine ⟨_, rfl, funext fun t => ?_⟩
    match t with
    | .rx => rfl
    | .tx => rfl
  exact ⟨s, hrun, hrest, lost_eq_false prompts quiet_prompts pollFirst hin s hrun .rx,
    lost_eq_false prompts quiet_prompts pollFirst hin s hrun .tx⟩

/-- `tx_run` finds the prompt and clears the pane before `rx_run` polls. -/
def clearFirst : List TmuxStep := upToStopped ++ List.replicate 3 (.thread .tx)

/-- `regex-test` prints its event before the output of the script that starts it is captured. -/
def printFirst : List TmuxStep :=
  ensureDirSteps .rx ++ [.thread .rx, .thread .rx, .print .rx, .thread .rx, .thread .rx]

set_option maxRecDepth 8000 in
/-- Both events can be lost. -/
theorem not_lost_eq_false :
    (¬ ∀ panes, Quiet panes → ∀ steps s,
      run TmuxState.step (TmuxState.init panes) steps = some s → s.lost .tx = false) ∧
    ¬ ∀ panes, Quiet panes → ∀ steps s,
      run TmuxState.step (TmuxState.init panes) steps = some s → s.lost .rx = false := by
  refine ⟨fun hall => ?_, fun hall => ?_⟩
  · obtain ⟨s, hrun, hlost⟩ : ∃ s,
        run TmuxState.step (TmuxState.init prompts) clearFirst = some s ∧ s.lost .tx = true :=
      ⟨_, rfl, rfl⟩
    rw [hall prompts quiet_prompts clearFirst s hrun] at hlost
    cases hlost
  · obtain ⟨s, hrun, hlost⟩ : ∃ s,
        run TmuxState.step (TmuxState.init prompts) printFirst = some s ∧ s.lost .rx = true :=
      ⟨_, rfl, rfl⟩
    rw [hall prompts quiet_prompts printFirst s hrun] at hlost
    cases hlost

end TmuxState

end Autotest
end PamoRxpBench
