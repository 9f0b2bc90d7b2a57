import Mathlib.Data.List.Infix
import Mathlib.Logic.Function.Basic

/-!
# `autotest`: `rx_run` and `tx_run` over two tmux panes

The threads of an attempt, as what they do to the panes: `clear` (with `clear-history`), typing
a command, and capturing. Printing, capturing and clearing are single steps, in any order. A
step is made by a thread, by the clock, or by what runs on a remote.

Of a pane only the lines with an event are told apart. `cat rgx_output` prints the line of
`regex-test` a second time, so a line remembers whether the program printed it (`own`).
-/

namespace PamoRxpBench
namespace Autotest

/-- A machine, with its pane, its program and its thread. -/
inductive Remote where
  | rx
  | tx
deriving DecidableEq, Repr

/-- What `event_regex` finds after `EVENT`. -/
inductive Event where
  | startingRx
  | stoppedTx
deriving DecidableEq, Repr

/-- The event that `regex-test` (on `rx`) or `launch_pktgen.sh` (on `tx`) prints. -/
def Remote.event : Remote → Event
  | .rx => .startingRx
  | .tx => .stoppedTx

/-- The commands that are typed into the panes. -/
inductive Cmd where
  | cdHome
  | mkdirRenders
  | rxSh
  | pkillRegexTest
  | catRgxOutput
  | launchPktgen
deriving DecidableEq, Repr

/-- The command that starts the program of a remote. -/
def Remote.launch : Remote → Cmd
  | .rx => .rxSh
  | .tx => .launchPktgen

/-- A line of a pane. -/
inductive Line where
  | text
  | event (e : Event) (own : Bool)
deriving DecidableEq, Repr

/-- The name in a line. -/
def Line.event? : Line → Option Event
  | .text => none
  | .event e _ => some e

/-- `event_regex.search`: the first event on a pane. -/
def searchEvent (pane : List Line) : Option Event := pane.findSome? Line.event?

/-- What a thread does next. After a `waitForEvent` in vain it goes on, or returns if it is
`required`. -/
inductive Action where
  | clear (r : Remote)
  | send (r : Remote) (cmd : Cmd)
  | waitForPrompt (r : Remote)
  | getOutput (r : Remote)
  | waitForEvent (r : Remote) (e : Event) (required : Bool)
deriving DecidableEq, Repr

/-! ## The threads -/

/-- `remote_tmux_send`. -/
def remoteTmuxSend (r : Remote) (cmd : Cmd) (returnStdout blocking : Bool) : List Action :=
  [.clear r, .send r cmd] ++ (if blocking then [.waitForPrompt r] else []) ++
    (if returnStdout then [.getOutput r, .clear r] else [])

/-- `remote_tmux_ensure_dir`. -/
def remoteTmuxEnsureDir (r : Remote) : List Action :=
  remoteTmuxSend r .cdHome false true ++ remoteTmuxSend r .mkdirRenders false true

/-- `remote_upload_rendered_script`: only the directory is made through the pane. -/
def remoteUploadRenderedScript (r : Remote) : List Action := remoteTmuxEnsureDir r

/-- `remote_tmux_launch_script`. -/
def remoteTmuxLaunchScript (r : Remote) (cmd : Cmd) (blocking : Bool) : List Action :=
  remoteUploadRenderedScript r ++ remoteTmuxSend r cmd true blocking

/-- `rx_run` once the script is launched. What the wait returns is not looked at. -/
def rxAfterLaunch : List Action :=
  .waitForEvent .tx .stoppedTx false ::
    (remoteTmuxSend .rx .pkillRegexTest true true ++ remoteTmuxSend .rx .catRgxOutput true true)

/-- `rx_run`. -/
def rxRun : List Action := remoteTmuxLaunchScript .rx .rxSh false ++ rxAfterLaunch

/-- `tx_run`. -/
def txRun : List Action :=
  remoteUploadRenderedScript .tx ++
    .waitForEvent .rx .startingRx true :: remoteTmuxLaunchScript .tx .launchPktgen true

def Remote.thread : Remote → List Action
  | .rx => rxRun
  | .tx => txRun

/-! ## Steps -/

/-- A program: not started (or killed before it printed its event), started, or past its event. -/
inductive Program where
  | idle
  | running
  | announced
deriving DecidableEq, Repr

/-- `pkill`. -/
def Program.kill : Program → Program
  | .announced => .announced
  | _ => .idle

/-- The panes, what runs in their foreground, the programs, what is left of the threads, and
whether a thread has polled in vain. Two ghosts for each remote: whether the line of its program
was captured by the `wait_for_remote_event` of the other thread, and whether it was cleared
before. -/
structure TmuxState where
  panes : Remote → List Line
  foreground : Remote → Option Cmd
  program : Remote → Program
  rest : Remote → List Action
  polled : Remote → Bool
  captured : Remote → Bool
  lost : Remote → Bool

/-- A thread goes on, or gives up waiting; a program prints its event, or anything else is
printed; `cat rgx_output` comes to the event; what is in the foreground ends. -/
inductive TmuxStep where
  | thread (t : Remote)
  | timeout (t : Remote)
  | print (r : Remote)
  | output (r : Remote)
  | showLog
  | finish (r : Remote)
deriving DecidableEq, Repr

namespace TmuxState

/-- The begin of an attempt. -/
def init (panes : Remote → List Line) : TmuxState where
  panes := panes
  foreground := fun _ => none
  program := fun _ => .idle
  rest := Remote.thread
  polled := fun _ => false
  captured := fun _ => false
  lost := fun _ => false

/-- The line of the program is on the pane. -/
def holdsLine (s : TmuxState) (r : Remote) : Bool := decide (.event r.event true ∈ s.panes r)

def goOn (s : TmuxState) (t : Remote) (rest : List Action) : TmuxState :=
  { s with rest := Function.update s.rest t rest }

/-- `clear` and `tmux clear-history`. -/
def clear (s : TmuxState) (r : Remote) : TmuxState :=
  { s with
    panes := Function.update s.panes r []
    lost := Function.update s.lost r (s.lost r || (s.holdsLine r && !s.captured r)) }

def setForeground (s : TmuxState) (r : Remote) (cmd : Option Cmd) : TmuxState :=
  { s with foreground := Function.update s.foreground r cmd }

def setProgram (s : TmuxState) (r : Remote) (p : Program) : TmuxState :=
  { s with program := Function.update s.program r p }

/-- A command is typed. -/
def send (s : TmuxState) (r : Remote) (cmd : Cmd) : TmuxState :=
  if cmd = r.launch then (s.setForeground r (some cmd)).setProgram r .running
  else s.setForeground r (some cmd)

/-- `remote_tmux_get_output` in `wait_for_remote_event`. -/
def capture (s : TmuxState) (r : Remote) : TmuxState :=
  { s with captured := Function.update s.captured r (s.captured r || s.holdsLine r) }

def append (s : TmuxState) (r : Remote) (line : Line) : TmuxState :=
  { s with panes := Function.update s.panes r (s.panes r ++ [line]) }

/-- The program of a remote prints its event. -/
def announce (s : TmuxState) (r : Remote) : TmuxState :=
  (s.setProgram r .announced).append r (.event r.event true)

/-- The next action of a thread. A wait for the prompt polls until the foreground is free, and a
wait for an event until the first event on the pane is the awaited one. -/
def act (s : TmuxState) (t : Remote) (rest : List Action) : Action → Option TmuxState
  | .clear r => some ((s.clear r).goOn t rest)
  | .send r cmd => some ((s.send r cmd).goOn t rest)
  | .waitForPrompt r => if s.foreground r = none then some (s.goOn t rest) else none
  | .getOutput _ => some (s.goOn t rest)
  | .waitForEvent r e _ =>
    if searchEvent (s.panes r) = some e then some ((s.capture r).goOn t rest)
    else some { s.capture r with polled := Function.update s.polled t true }

/-- The time of a wait is over. The message that is logged captures the pane once more. -/
def giveUp (s : TmuxState) (t : Remote) : Option TmuxState :=
  match s.rest t with
  | .waitForEvent r _ required :: rest =>
    if s.polled t then some ((s.capture r).goOn t (if required then [] else rest)) else none
  | _ => none

/-- A command in the foreground ends. -/
def ended (s : TmuxState) (r : Remote) (cmd : Cmd) : TmuxState :=
  if cmd = .pkillRegexTest then (s.setForeground r none).setProgram r (s.program r).kill
  else s.setForeground r none

/-- The foreground is free again: for `launch_pktgen.sh` after its event, for `pkill` once
`regex-test` is gone. -/
def finish (s : TmuxState) (r : Remote) : Option TmuxState :=
  match s.foreground r with
  | none => none
  | some cmd =>
    if cmd = .launchPktgen ∧ s.program r ≠ .announced then none else some (s.ended r cmd)

def step (s : TmuxState) : TmuxStep → Option TmuxState
  | .thread t =>
    match s.rest t with
    | [] => none
    | a :: rest => s.act t rest a
  | .timeout t => s.giveUp t
  | .print r => if s.program r = .running then some (s.announce r) else none
  | .output r => some (s.append r .text)
  | .showLog =>
    if s.foreground .rx = some .catRgxOutput ∧ s.program .rx = .announced then
      some (s.append .rx (.event .startingRx false))
    else none
  | .finish r => s.finish r

end TmuxState

end Autotest
end PamoRxpBench
