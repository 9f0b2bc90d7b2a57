import PamoRxpBench.Autotest.Tmux

/-!
# The phases of an attempt

What a step can do, said once (`Moves`), and what holds in every run: where a thread is tells what
runs on its remote, and which events are on the panes (`Phased`).
-/

namespace PamoRxpBench
namespace Autotest

/-- The pane an action is about. -/
def Action.pane : Action → Remote
  | .clear r => r
  | .send r _ => r
  | .waitForPrompt r => r
  | .getOutput r => r
  | .waitForEvent r _ _ => r

/-- The action types a command. -/
def Action.types : Action → Bool
  | .send _ _ => true
  | _ => false

/-- The action waits for an event. -/
def Action.awaits : Action → Bool
  | .waitForEvent _ _ _ => true
  | _ => false

/-- The wait of a thread for the event of the other side. -/
def Remote.wait : Remote → Action
  | .rx => .waitForEvent .tx .stoppedTx false
  | .tx => .waitForEvent .rx .startingRx true

/-! ## Where the actions of a thread are -/

/-- A thread waits for one event. -/
theorem eq_wait_of_awaits : ∀ t : Remote, ∀ a ∈ t.thread, a.awaits → a = t.wait := by
  intro t
  match t with
  | .rx => decide
  | .tx => decide

/-- All else that a thread does is about its own pane. -/
theorem pane_eq_of_not_awaits : ∀ t : Remote, ∀ a ∈ t.thread, ¬ a.awaits → a.pane = t := by
  intro t
  match t with
  | .rx => decide
  | .tx => decide

/-- A program is started once. -/
theorem launch_once : ∀ t, ∀ l ∈ t.thread.tails, l.head? = some (.send t t.launch) →
    Action.send t t.launch ∉ l.tail := by
  intro t
  match t with
  | .rx => decide
  | .tx => decide

/-- The log is printed once. -/
theorem cat_once : ∀ l ∈ rxRun.tails, l.head? = some (.send .rx .catRgxOutput) →
    Action.send .rx .catRgxOutput ∉ l.tail := by
  decide

/-- Nothing is typed on `tx` after `launch_pktgen.sh`. -/
theorem launch_of_types : ∀ l ∈ txRun.tails, l.head?.any Action.types →
    Action.send .tx .launchPktgen ∈ l := by
  decide

theorem Program.kill_ne_running (p : Program) : p.kill ≠ .running := by
  match p with
  | .idle => decide
  | .running => decide
  | .announced => decide

namespace TmuxState

variable {s s' : TmuxState} {t r : Remote} {a : Action} {cmd : Cmd} {rest : List Action}

/-! ## The fields after an update -/

@[simp] theorem goOn_rest_self (s : TmuxState) (t : Remote) (rest : List Action) :
    (s.goOn t rest).rest t = rest := by
  unfold goOn
  exact Function.update_self t rest s.rest

theorem goOn_rest_of_ne (s : TmuxState) (rest : List Action) (h : r ≠ t) :
    (s.goOn t rest).rest r = s.rest r := by
  unfold goOn
  exact Function.update_of_ne h rest s.rest

@[simp] theorem clear_panes_self (s : TmuxState) (r : Remote) : (s.clear r).panes r = [] := by
  unfold clear
  exact Function.update_self r [] s.panes

theorem clear_panes_of_ne (s : TmuxState) (h : t ≠ r) : (s.clear r).panes t = s.panes t := by
  unfold clear
  exact Function.update_of_ne h [] s.panes

@[simp] theorem setForeground_foreground_self (s : TmuxState) (r : Remote) (cmd : Option Cmd) :
    (s.setForeground r cmd).foreground r = cmd := by
  unfold setForeground
  exact Function.update_self r cmd s.foreground

theorem setForeground_foreground_of_ne (s : TmuxState) (cmd : Option Cmd) (h : t ≠ r) :
    (s.setForeground r cmd).foreground t = s.foreground t := by
  unfold setForeground
  exact Function.update_of_ne h cmd s.foreground

@[simp] theorem setProgram_program_self (s : TmuxState) (r : Remote) (p : Program) :
    (s.setProgram r p).program r = p := by
  unfold setProgram
  exact Function.update_self r p s.program

theorem setProgram_program_of_ne (s : TmuxState) (p : Program) (h : t ≠ r) :
    (s.setProgram r p).program t = s.program t := by
  unfold setProgram
  exact Function.update_of_ne h p s.program

/-- What is on a pane after a line was appended to one. -/
theorem mem_append_panes {line l : Line} (h : l ∈ (s.append r line).panes t) :
    l ∈ s.panes t ∨ (t = r ∧ l = line) := by
  by_cases htr : t = r
  · subst htr
    simp only [append, Function.update_self, List.mem_append, List.mem_singleton] at h
    exact h.imp id fun hl => ⟨rfl, hl⟩
  · simp only [append, Function.update_of_ne htr] at h
    left
    exact h

theorem mem_clear_panes {l : Line} (h : l ∈ (s.clear r).panes t) : l ∈ s.panes t ∧ t ≠ r := by
  by_cases htr : t = r
  · rw [htr, clear_panes_self] at h
    exact absurd h List.not_mem_nil
  · rw [s.clear_panes_of_ne htr] at h
    exact ⟨h, htr⟩

/-- What was captured stays captured. -/
theorem capture_captured (h : s.captured t = true) : (s.capture r).captured t = true := by
  unfold capture
  by_cases htr : t = r
  · subst htr
    simp [h]
  · simp [htr, h]

/-- The line of a program that is on the pane is captured. -/
theorem capture_captured_of_mem (h : .event r.event true ∈ s.panes r) :
    (s.capture r).captured r = true := by
  simp [capture, holdsLine, h]

/-- If the search finds an event, then an event is on the pane. -/
theorem mem_of_searchEvent {pane : List Line} {e : Event} (h : searchEvent pane = some e) :
    ∃ own, .event e own ∈ pane := by
  unfold searchEvent at h
  obtain ⟨l, hl, he⟩ := List.exists_of_findSome?_eq_some h
  match l, he with
  | .event e own, rfl => exact ⟨own, hl⟩

/-! ## What holds in every run -/

/-- What runs on a remote, from where its thread is, and the lines from what has run. -/
structure Phased (s : TmuxState) : Prop where
  mem_tails : ∀ t, s.rest t ∈ t.thread.tails
  idle : ∀ r, .send r r.launch ∈ s.rest r → s.program r = .idle
  own : ∀ r e, .event e true ∈ s.panes r → e = r.event ∧ s.program r = .announced
  copy_tx : ∀ e, .event e false ∉ s.panes .tx
  pktgen : s.program .tx = .running → s.foreground .tx = some .launchPktgen
  started_tx : s.rest .tx ≠ [] → .send .tx .launchPktgen ∉ s.rest .tx → s.program .tx ≠ .idle
  cat : s.foreground .rx = some .catRgxOutput → .send .rx .catRgxOutput ∉ s.rest .rx

/-- There is no event on the panes. -/
def Quiet (panes : Remote → List Line) : Prop := ∀ r e own, .event e own ∉ panes r

theorem Phased.init {panes : Remote → List Line} (h : Quiet panes) : Phased (init panes) where
  mem_tails := fun t => (List.mem_tails _ _).mpr List.suffix_rfl
  idle := fun _ _ => rfl
  own := fun r e hl => absurd hl (h r e true)
  copy_tx := fun e => h .tx e false
  pktgen := fun hp => by cases hp
  started_tx := fun _ hsend => absurd (show _ ∈ txRun by decide) hsend
  cat := fun hf => by cases hf

/-! ## What a step does -/

/-- What makes a step possible, and the state it leaves. A thread works on its own pane and waits
for the event of the other side. -/
inductive Moves (s : TmuxState) : TmuxStep → TmuxState → Prop
  | clear {t : Remote} {rest : List Action} (hrest : s.rest t = .clear t :: rest) :
    Moves s (.thread t) ((s.clear t).goOn t rest)
  | send {t : Remote} {cmd : Cmd} {rest : List Action} (hrest : s.rest t = .send t cmd :: rest) :
    Moves s (.thread t) ((s.send t cmd).goOn t rest)
  | waitForPrompt {t : Remote} {rest : List Action} (hrest : s.rest t = .waitForPrompt t :: rest)
    (hfree : s.foreground t = none) : Moves s (.thread t) (s.goOn t rest)
  | getOutput {t : Remote} {rest : List Action} (hrest : s.rest t = .getOutput t :: rest) :
    Moves s (.thread t) (s.goOn t rest)
  | found {t : Remote} {rest : List Action} (hrest : s.rest t = t.wait :: rest)
    (hsearch : ∃ e own, .event e own ∈ s.panes t.wait.pane) :
    Moves s (.thread t) ((s.capture t.wait.pane).goOn t rest)
  | poll (t : Remote) :
    Moves s (.thread t)
      { s.capture t.wait.pane with polled := Function.update s.polled t true }
  | giveUp_rx {rest : List Action} (hrest : s.rest .rx = Remote.rx.wait :: rest) :
    Moves s (.timeout .rx) ((s.capture .tx).goOn .rx rest)
  | giveUp_tx {rest : List Action} (hrest : s.rest .tx = Remote.tx.wait :: rest) :
    Moves s (.timeout .tx) ((s.capture .rx).goOn .tx [])
  | print {r : Remote} (hrunning : s.program r = .running) : Moves s (.print r) (s.announce r)
  | output (r : Remote) : Moves s (.output r) (s.append r .text)
  | showLog (hcat : s.foreground .rx = some .catRgxOutput) (hprinted : s.program .rx = .announced) :
    Moves s .showLog (s.append .rx (.event .startingRx false))
  | finish {r : Remote} {cmd : Cmd} (hcmd : s.foreground r = some cmd)
    (hlaunch : cmd = .launchPktgen → s.program r = .announced) :
    Moves s (.finish r) (s.ended r cmd)

theorem Phased.mem_thread (h : Phased s) (hrest : s.rest t = a :: rest) : a ∈ t.thread := by
  have hmem := h.mem_tails t
  rw [hrest, List.mem_tails] at hmem
  exact hmem.subset List.mem_cons_self

theorem Phased.moves_act (h : Phased s) (hrest : s.rest t = a :: rest)
    (hact : s.act t rest a = some s') : Moves s (.thread t) s' := by
  have hmem := h.mem_thread hrest
  match a, hact with
  | .clear r, hact =>
    have hr : r = t := pane_eq_of_not_awaits t _ hmem Bool.false_ne_true
    subst hr
    exact Option.some.inj hact ▸ Moves.clear hrest
  | .send r cmd, hact =>
    have hr : r = t := pane_eq_of_not_awaits t _ hmem Bool.false_ne_true
    subst hr
    exact Option.some.inj hact ▸ Moves.send hrest
  | .waitForPrompt r, hact =>
    have hr : r = t := pane_eq_of_not_awaits t _ hmem Bool.false_ne_true
    subst hr
    dsimp only [TmuxState.act] at hact
    split at hact
    · rename_i hfree
      exact Option.some.inj hact ▸ Moves.waitForPrompt hrest hfree
    · cases hact
  | .getOutput r, hact =>
    have hr : r = t := pane_eq_of_not_awaits t _ hmem Bool.false_ne_true
    subst hr
    exact Option.some.inj hact ▸ Moves.getOutput hrest
  | .waitForEvent r e required, hact =>
    -- the one wait of the thread, for the event of the other side
    have hwait := eq_wait_of_awaits t _ hmem rfl
    have hr : r = t.wait.pane := congrArg Action.pane hwait
    subst hr
    dsimp only [TmuxState.act] at hact
    split at hact
    · rename_i hsearch
      exact Option.some.inj hact ▸
        Moves.found (hrest.trans (congrArg (· :: rest) hwait)) ⟨e, mem_of_searchEvent hsearch⟩
    · exact Option.some.inj hact ▸ Moves.poll t

theorem Phased.moves_giveUp (h : Phased s) (hgiveUp : s.giveUp t = some s') :
    Moves s (.timeout t) s' := by
  unfold giveUp at hgiveUp
  split at hgiveUp
  · rename_i r e required rest hrest
    have hwait := eq_wait_of_awaits t _ (h.mem_thread hrest) rfl
    rw [hwait] at hrest
    split at hgiveUp
    · rw [← Option.some.inj hgiveUp]
      match t with
      | .rx =>
        injection hwait with hr _ hrequired
        subst hr hrequired
        exact Moves.giveUp_rx hrest
      | .tx =>
        injection hwait with hr _ hrequired
        subst hr hrequired
        exact Moves.giveUp_tx hrest
    · cases hgiveUp
  · cases hgiveUp

theorem moves_finish (hfinish : s.finish r = some s') : Moves s (.finish r) s' := by
  unfold finish at hfinish
  split at hfinish
  · cases hfinish
  · rename_i cmd hcmd
    split at hfinish
    · cases hfinish
    · rename_i hguard
      refine Option.some.inj hfinish ▸ Moves.finish hcmd fun hlaunch => ?_
      by_contra hne
      exact hguard ⟨hlaunch, hne⟩

/-- What a step does in a state that was reached. -/
theorem Phased.moves (h : Phased s) {b : TmuxStep} (hstep : s.step b = some s') :
    Moves s b s' := by
  unfold TmuxState.step at hstep
  match b, hstep with
  | .thread t, hstep =>
    dsimp only at hstep
    split at hstep
    · cases hstep
    · rename_i a rest hrest
      exact h.moves_act hrest hstep
  | .timeout t, hstep => exact h.moves_giveUp hstep
  | .print r, hstep =>
    dsimp only at hstep
    split at hstep
    · rename_i hrunning
      exact Option.some.inj hstep ▸ Moves.print hrunning
    · cases hstep
  | .output r, hstep => exact Option.some.inj hstep ▸ Moves.output r
  | .showLog, hstep =>
    dsimp only at hstep
    split at hstep
    · rename_i hlog
      exact Option.some.inj hstep ▸ Moves.showLog hlog.1 hlog.2
    · cases hstep
  | .finish r, hstep => exact moves_finish hstep

/-! ## The steps keep the phases -/

/-- What is left of a thread once it has gone on. -/
theorem Phased.goOn_mem_tails (h : Phased s) (hrest : s.rest t = a :: rest) (q : Remote) :
    (s.goOn t rest).rest q ∈ q.thread.tails := by
  by_cases hq : q = t
  · subst hq
    rw [goOn_rest_self, List.mem_tails]
    have hmem := h.mem_tails q
    rw [hrest, List.mem_tails] at hmem
    exact (List.suffix_cons a rest).trans hmem
  · rw [s.goOn_rest_of_ne rest hq]
    exact h.mem_tails q

/-- An action that a thread has left was left before. -/
theorem mem_of_mem_goOn {b : Action} {q : Remote} (hrest : s.rest t = a :: rest)
    (h : b ∈ (s.goOn t rest).rest q) : b ∈ s.rest q := by
  by_cases hq : q = t
  · subst hq
    rw [goOn_rest_self] at h
    rw [hrest]
    exact List.mem_cons_of_mem a h
  · rwa [s.goOn_rest_of_ne rest hq] at h

/-- What a thread has left, but for the action that it has just done. -/
theorem mem_goOn_of_mem {b : Action} {q : Remote} (hrest : s.rest t = a :: rest)
    (h : b ∈ s.rest q) (hne : q = t → b ≠ a) : b ∈ (s.goOn t rest).rest q := by
  by_cases hq : q = t
  · subst hq
    rw [goOn_rest_self]
    rw [hrest] at h
    exact (List.mem_cons.mp h).resolve_left (hne rfl)
  · rwa [s.goOn_rest_of_ne rest hq]

/-- A thread goes on after anything but typing a command. -/
theorem Phased.goOn (h : Phased s) (hrest : s.rest t = a :: rest)
    (hsend : ∀ r cmd, a ≠ .send r cmd) : Phased (s.goOn t rest) where
  mem_tails := h.goOn_mem_tails hrest
  idle := fun r hr => h.idle r (mem_of_mem_goOn hrest hr)
  own := h.own
  copy_tx := h.copy_tx
  pktgen := h.pktgen
  started_tx := by
    intro hne hnot
    apply h.started_tx
    -- a thread that goes on was not done
    · intro hnil
      apply hne
      by_cases ht : .tx = t
      · rw [← ht, hnil] at hrest
        exact absurd hrest (List.cons_ne_nil a rest).symm
      · rw [s.goOn_rest_of_ne rest ht, hnil]
    · intro hmem
      exact hnot (mem_goOn_of_mem hrest hmem fun _ heq => hsend _ _ heq.symm)
  cat := fun hf hr => h.cat hf (mem_of_mem_goOn hrest hr)

/-- A thread returns. -/
theorem Phased.stop (h : Phased s) (t : Remote) : Phased (s.goOn t []) := by
  have hmem : ∀ {b q}, b ∈ (s.goOn t []).rest q → b ∈ s.rest q ∧ q ≠ t := by
    intro b q hb
    by_cases hq : q = t
    · subst hq
      rw [goOn_rest_self] at hb
      exact absurd hb List.not_mem_nil
    · rw [s.goOn_rest_of_ne [] hq] at hb
      exact ⟨hb, hq⟩
  refine ⟨fun q => ?_, fun r hr => h.idle r (hmem hr).1, h.own, h.copy_tx, h.pktgen,
    fun hne hnot => ?_, fun hf hr => h.cat hf (hmem hr).1⟩
  · by_cases hq : q = t
    · rw [hq, goOn_rest_self, List.mem_tails]
      exact List.nil_suffix
    · rw [s.goOn_rest_of_ne [] hq]
      exact h.mem_tails q
  -- a thread that has returned has nothing left to start
  · by_cases ht : .tx = t
    · rw [ht, goOn_rest_self] at hne
      exact absurd rfl hne
    · rw [s.goOn_rest_of_ne [] ht] at hne hnot
      exact h.started_tx hne hnot

theorem Phased.clear (h : Phased s) (r : Remote) : Phased (s.clear r) where
  mem_tails := h.mem_tails
  idle := h.idle
  own := fun q e hl => h.own q e (mem_clear_panes hl).1
  copy_tx := fun e hl => h.copy_tx e (mem_clear_panes hl).1
  pktgen := h.pktgen
  started_tx := h.started_tx
  cat := h.cat

theorem Phased.capture (h : Phased s) (r : Remote) : Phased (s.capture r) :=
  ⟨h.mem_tails, h.idle, h.own, h.copy_tx, h.pktgen, h.started_tx, h.cat⟩

theorem Phased.poll (h : Phased s) (polled : Remote → Bool) :
    Phased { s with polled := polled } :=
  ⟨h.mem_tails, h.idle, h.own, h.copy_tx, h.pktgen, h.started_tx, h.cat⟩

/-- A line that is no event of another program, and on the pane of `tx` no copy. -/
theorem Phased.append (h : Phased s) {r : Remote} {line : Line}
    (hown : ∀ e, line = .event e true → e = r.event ∧ s.program r = .announced)
    (hcopy : r = .tx → ∀ e, line ≠ .event e false) : Phased (s.append r line) := by
  refine ⟨h.mem_tails, h.idle, fun q e hl => ?_, fun e hl => ?_, h.pktgen, h.started_tx, h.cat⟩
  · rcases mem_append_panes hl with hl | ⟨hq, hl⟩
    · exact h.own q e hl
    · rw [hq]
      exact hown e hl.symm
  · rcases mem_append_panes hl with hl | ⟨hr, hl⟩
    · exact h.copy_tx e hl
    · exact hcopy hr.symm e hl.symm

/-- A program changes: it is not started before its command is typed, what is past its event
stays so, and `launch_pktgen.sh` runs in the foreground. -/
theorem Phased.setProgram (h : Phased s) {p : Program}
    (hidle : .send r r.launch ∈ s.rest r → p = .idle)
    (hannounced : s.program r = .announced → p = .announced)
    (hpktgen : r = .tx → p = .running → s.foreground .tx = some .launchPktgen)
    (hstarted : r = .tx → s.program .tx ≠ .idle → p ≠ .idle) : Phased (s.setProgram r p) where
  mem_tails := h.mem_tails
  idle := by
    intro q hq
    by_cases hqr : q = r
    · subst hqr
      rw [setProgram_program_self]
      exact hidle hq
    · rw [s.setProgram_program_of_ne p hqr]
      exact h.idle q hq
  own := by
    intro q e hl
    refine ⟨(h.own q e hl).1, ?_⟩
    by_cases hqr : q = r
    · subst hqr
      rw [setProgram_program_self]
      exact hannounced (h.own q e hl).2
    · rw [s.setProgram_program_of_ne p hqr]
      exact (h.own q e hl).2
  copy_tx := h.copy_tx
  pktgen := by
    intro hp
    by_cases hr : .tx = r
    · rw [← hr, setProgram_program_self] at hp
      exact hpktgen hr.symm hp
    · rw [s.setProgram_program_of_ne p hr] at hp
      exact h.pktgen hp
  started_tx := by
    intro hne hnot
    have hidle := h.started_tx hne hnot
    by_cases hr : .tx = r
    · rw [← hr, setProgram_program_self]
      exact hstarted hr.symm hidle
    · rw [s.setProgram_program_of_ne p hr]
      exact hidle
  cat := h.cat

/-- A program that runs may print its line. -/
theorem Phased.announce (h : Phased s) (hr : s.program r = .running) : Phased (s.announce r) := by
  have hprogram : Phased (s.setProgram r .announced) := by
    refine h.setProgram (fun hsend => ?_) (fun _ => rfl) (fun _ hp => by cases hp)
      fun _ _ hp => by cases hp
    rw [h.idle r hsend] at hr
    cases hr
  refine hprogram.append (fun e he => ⟨?_, s.setProgram_program_self r .announced⟩)
    fun _ e he => by cases he
  injection he with he
  exact he.symm

theorem Phased.setForeground (h : Phased s) {cmd : Option Cmd}
    (hpktgen : r = .tx → s.program .tx = .running → cmd = some .launchPktgen)
    (hcat : r = .rx → cmd = some .catRgxOutput → .send .rx .catRgxOutput ∉ s.rest .rx) :
    Phased (s.setForeground r cmd) where
  mem_tails := h.mem_tails
  idle := h.idle
  own := h.own
  copy_tx := h.copy_tx
  pktgen := by
    intro hp
    by_cases hr : .tx = r
    · rw [← hr, setForeground_foreground_self]
      exact hpktgen hr.symm hp
    · rw [s.setForeground_foreground_of_ne cmd hr]
      exact h.pktgen hp
  started_tx := h.started_tx
  cat := by
    intro hf
    by_cases hr : .rx = r
    · rw [← hr, setForeground_foreground_self] at hf
      exact hcat hr.symm hf
    · rw [s.setForeground_foreground_of_ne cmd hr] at hf
      exact h.cat hf

/-- A command may end, `launch_pktgen.sh` after its line. -/
theorem Phased.ended (h : Phased s) (hcmd : s.foreground r = some cmd)
    (hlaunch : cmd = .launchPktgen → s.program r = .announced) : Phased (s.ended r cmd) := by
  -- `launch_pktgen.sh` is past its event if it was in the foreground
  have hrunning : r = .tx → s.program .tx ≠ .running := by
    intro hr hp
    have hpktgen := h.pktgen hp
    rw [← hr, hcmd] at hpktgen
    have hannounced := hlaunch (Option.some.inj hpktgen)
    rw [hr, hp] at hannounced
    cases hannounced
  have hnone : Phased (s.setForeground r none) :=
    h.setForeground (fun hr hp => absurd hp (hrunning hr)) fun _ hf => by cases hf
  unfold TmuxState.ended
  split
  · refine hnone.setProgram (fun hsend => ?_) (fun hp => ?_)
      (fun _ hp => absurd hp (Program.kill_ne_running _)) fun hr hp => ?_
    · rw [h.idle r hsend]
      rfl
    · have hp : s.program r = .announced := hp
      rw [hp]
      rfl
    · have hp : s.program .tx ≠ .idle := hp
      have hannounced := hrunning hr
      rw [hr]
      match hprogram : s.program .tx with
      | .idle => exact absurd hprogram hp
      | .running => exact absurd hprogram hannounced
      | .announced => decide
  · exact hnone

/-- Typing a command starts the program of the remote, or none. -/
theorem send_program (s : TmuxState) (r q : Remote) (cmd : Cmd) :
    (s.send r cmd).program q = if q = r ∧ cmd = r.launch then .running else s.program q := by
  unfold send
  by_cases hcmd : cmd = r.launch
  · rw [if_pos hcmd]
    by_cases hq : q = r
    · rw [if_pos ⟨hq, hcmd⟩, hq, setProgram_program_self]
    · rw [if_neg fun h => hq h.1, setProgram_program_of_ne _ _ hq]
      rfl
  · rw [if_neg hcmd, if_neg fun h => hcmd h.2]
    rfl

theorem send_foreground (s : TmuxState) (r q : Remote) (cmd : Cmd) :
    (s.send r cmd).foreground q = if q = r then some cmd else s.foreground q := by
  have hset : (s.send r cmd).foreground = (s.setForeground r (some cmd)).foreground := by
    unfold send
    split <;> rfl
  rw [hset]
  by_cases hq : q = r
  · rw [if_pos hq, hq, setForeground_foreground_self]
  · rw [if_neg hq, setForeground_foreground_of_ne _ _ hq]

theorem send_panes (s : TmuxState) (r : Remote) (cmd : Cmd) :
    (s.send r cmd).panes = s.panes := by
  unfold send
  split <;> rfl

theorem send_rest (s : TmuxState) (r : Remote) (cmd : Cmd) : (s.send r cmd).rest = s.rest := by
  unfold send
  split <;> rfl

theorem send_goOn_rest (s : TmuxState) (t q : Remote) (cmd : Cmd) (rest : List Action) :
    ((s.send t cmd).goOn t rest).rest q = (s.goOn t rest).rest q := by
  unfold goOn
  rw [send_rest]

/-- A program whose command is still to come after this one is not started by it. -/
theorem Phased.send_program_of_mem (h : Phased s) (hrest : s.rest t = .send t cmd :: rest)
    {q : Remote} (hq : .send q q.launch ∈ (s.goOn t rest).rest q) :
    (s.send t cmd).program q = .idle := by
  have htails := h.mem_tails t
  rw [hrest] at htails
  rw [send_program, if_neg, h.idle q (mem_of_mem_goOn hrest hq)]
  -- otherwise the program would be started twice
  intro ⟨hqt, hcmd⟩
  subst hqt
  rw [goOn_rest_self] at hq
  exact launch_once q _ htails (congrArg (fun c => some (Action.send q c)) hcmd) hq

/-- A program that is past its event is not started. -/
theorem Phased.send_program_of_announced (h : Phased s) (hrest : s.rest t = .send t cmd :: rest)
    {q : Remote} (hq : s.program q = .announced) : (s.send t cmd).program q = .announced := by
  rw [send_program, if_neg, hq]
  intro ⟨hqt, hcmd⟩
  subst hqt
  have hidle : s.program q = .idle := by
    apply h.idle q
    rw [hrest, hcmd]
    exact List.mem_cons_self
  rw [hq] at hidle
  cases hidle

/-- Whatever is typed on `tx`, `launch_pktgen.sh` is not typed before. -/
theorem Phased.launch_mem_of_send (h : Phased s) (hrest : s.rest .tx = .send .tx cmd :: rest) :
    .send .tx .launchPktgen ∈ s.rest .tx := by
  have htails := h.mem_tails .tx
  rw [hrest] at htails ⊢
  exact launch_of_types _ htails rfl

/-- The command that starts `launch_pktgen.sh` is in the foreground. -/
theorem Phased.send_pktgen (h : Phased s) (hrest : s.rest t = .send t cmd :: rest)
    (hp : (s.send t cmd).program .tx = .running) :
    (s.send t cmd).foreground .tx = some .launchPktgen := by
  rw [send_program] at hp
  rw [send_foreground]
  by_cases ht : .tx = t
  · subst ht
    rw [if_pos rfl]
    split at hp
    · rename_i hcmd
      rw [hcmd.2]
      rfl
    · rw [h.idle .tx (h.launch_mem_of_send hrest)] at hp
      cases hp
  · rw [if_neg fun hc => ht hc.1] at hp
    rw [if_neg ht]
    exact h.pktgen hp

/-- If nothing is left to type on `tx`, then this command starts `launch_pktgen.sh`, or it was
started. -/
theorem Phased.send_started_tx (h : Phased s) (hrest : s.rest t = .send t cmd :: rest)
    (hne : (s.goOn t rest).rest .tx ≠ [])
    (hnot : .send .tx .launchPktgen ∉ (s.goOn t rest).rest .tx) :
    (s.send t cmd).program .tx ≠ .idle := by
  by_cases ht : .tx = t
  · subst ht
    rw [goOn_rest_self] at hnot
    have hmem := h.launch_mem_of_send hrest
    rw [hrest] at hmem
    have hcmd := (List.mem_cons.mp hmem).resolve_right hnot
    injection hcmd with _ hcmd
    rw [send_program, if_pos ⟨rfl, hcmd.symm⟩]
    decide
  · rw [s.goOn_rest_of_ne rest ht] at hne hnot
    rw [send_program, if_neg fun hc => ht hc.1]
    exact h.started_tx hne hnot

theorem Phased.send_cat (h : Phased s) (hrest : s.rest t = .send t cmd :: rest)
    (hf : (s.send t cmd).foreground .rx = some .catRgxOutput) :
    .send .rx .catRgxOutput ∉ (s.goOn t rest).rest .rx := by
  intro hmem
  rw [send_foreground] at hf
  by_cases ht : .rx = t
  · subst ht
    have htails := h.mem_tails .rx
    rw [hrest] at htails
    rw [if_pos rfl] at hf
    rw [goOn_rest_self] at hmem
    exact cat_once _ htails
      (congrArg (fun c => some (Action.send .rx c)) (Option.some.inj hf)) hmem
  · rw [if_neg ht] at hf
    exact h.cat hf (mem_of_mem_goOn hrest hmem)

/-- A thread types a command and goes on. -/
theorem Phased.send (h : Phased s) (hrest : s.rest t = .send t cmd :: rest) :
    Phased ((s.send t cmd).goOn t rest) := by
  refine ⟨fun q => ?_, fun q hq => ?_, fun q e hl => ?_, fun e hl => ?_,
    fun hp => h.send_pktgen hrest hp, fun hne hnot => ?_, fun hf => ?_⟩
  · rw [send_goOn_rest]
    exact h.goOn_mem_tails hrest q
  · rw [send_goOn_rest] at hq
    exact h.send_program_of_mem hrest hq
  · have hl : .event e true ∈ (s.send t cmd).panes q := hl
    rw [send_panes] at hl
    have hown := h.own q e hl
    exact ⟨hown.1, h.send_program_of_announced hrest hown.2⟩
  · have hl : .event e false ∈ (s.send t cmd).panes .tx := hl
    rw [send_panes] at hl
    exact h.copy_tx e hl
  · rw [send_goOn_rest] at hne hnot
    exact h.send_started_tx hrest hne hnot
  · rw [send_goOn_rest]
    exact h.send_cat hrest hf

/-- One step, whatever it is. -/
theorem Phased.step (h : Phased s) {b : TmuxStep} (hstep : s.step b = some s') : Phased s' := by
  cases h.moves hstep with
  | clear hrest => exact (h.clear _).goOn hrest fun _ _ heq => by cases heq
  | send hrest => exact h.send hrest
  | waitForPrompt hrest hfree => exact h.goOn hrest fun _ _ heq => by cases heq
  | getOutput hrest => exact h.goOn hrest fun _ _ heq => by cases heq
  | @found t _ hrest hsearch =>
    refine (h.capture _).goOn hrest fun _ _ heq => ?_
    match t with
    | .rx => cases heq
    | .tx => cases heq
  | poll t => exact (h.capture _).poll _
  | giveUp_rx hrest => exact (h.capture .tx).goOn hrest fun _ _ heq => by cases heq
  | giveUp_tx hrest => exact (h.capture .rx).stop .tx
  | print hrunning => exact h.announce hrunning
  | output r => exact h.append (fun _ he => by cases he) fun _ _ he => by cases he
  | showLog hcat hprinted => exact h.append (fun _ he => by cases he) fun hr => by cases hr
  | finish hcmd hlaunch => exact h.ended hcmd hlaunch

end TmuxState

end Autotest
end PamoRxpBench
