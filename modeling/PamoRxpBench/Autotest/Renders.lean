import PamoRxpBench.Autotest.Results
import PamoRxpBench.Autotest.Tmux
import PamoRxpBench.Library.Filename
import PamoRxpBench.Library.Interleaving
import Mathlib.Algebra.Group.Nat.Defs

/-!
# `autotest`: rendered scripts

A template is rendered into the directory `renders` of the host, under a name with a time stamp,
copied to the directory of that name on a remote, and started there. Only these directories are
modelled, by the names of their files. Writing or copying a file is one step, and a copy that fails
can leave anything behind.

Jinja is a parameter: what a template renders to with some values.
-/

namespace PamoRxpBench
namespace Autotest

open Text Filename Interleaving

/-! ## Names -/

/-- `ts_period_default`. -/
def tsPeriodDefault : ℕ := 1000000

/-- `timestamp`: the seconds of the clock, and the `rand_ext_size` random digits. -/
def timestamp (now randExt : ℕ) : ℕ := now % tsPeriodDefault * 10 ^ 4 + randExt

/-- The name of the file that `render_script` writes. An argument that is `None` is empty. -/
def renderedName (templateName filenamePrefix nameExtra : Text) (stamp : Option ℕ) : Text :=
  (splitext (if filenamePrefix = [] then templateName else filenamePrefix)).1 ++
    stamp.elim [] (fun stamp => '_' :: decimal stamp) ++
      (if nameExtra = [] then [] else '_' :: nameExtra) ++ (splitext templateName).2

/-- The path of a script on a remote. -/
def scriptDst (experiment name : Text) : Text :=
  "~/".toList ++ experiment ++ "/renders/".toList ++ name

/-! ## The directories -/

/-- What `cp` or `scp` does. When it fails it may have written something before. -/
inductive Copied where
  | done
  | failed (wrote : Option Text)
deriving DecidableEq, Repr

/-- The destination after a copy. -/
def Copied.after (src dst : Option Text) : Copied → Option Text
  | .done => src
  | .failed wrote => wrote.or dst

/-- The directories `renders` of the host and of the machines `M`. -/
@[ext]
structure Renders (M : Type) where
  host : Text → Option Text
  remote : M → Text → Option Text

namespace Renders

variable {M : Type} [DecidableEq M]

/-- `render_script`: the file is overwritten. -/
def renderScript (s : Renders M) (name content : Text) : Renders M :=
  { s with host := Function.update s.host name (some content) }

/-- A file is copied to a machine. -/
def copy (s : Renders M) (m : M) (name : Text) (c : Copied) : Renders M :=
  { s with
    remote := Function.update s.remote m
      (Function.update (s.remote m) name (c.after (s.host name) (s.remote m name))) }

end Renders

/-! ## `remote_upload_file` -/

/-- The copies that the loop makes, when `left` retries are left. -/
def copyLoop (copies : ℕ → Copied) : ℕ → ℕ → List Copied
  | 0, _ => []
  | left + 1, nRetries =>
    copies nRetries ::
      if copies nRetries = .done then [] else copyLoop copies left (nRetries + 1)

/-- How `remote_upload_file` ends. `run_res` is only bound by an upload to another machine. -/
inductive UploadExit where
  | succeeded
  | logged
  | unboundLocalError
deriving DecidableEq, Repr

/-- `max_retries`. -/
def maxRetries : ℕ := 3

/-- `remote_upload_file`, for the destination on this machine or another one. -/
def remoteUploadFile (isLocal : Bool) (copies : ℕ → Copied) : UploadExit :=
  if .done ∈ copyLoop copies maxRetries 0 then .succeeded
  else if isLocal then .unboundLocalError
  else .logged

/-! ## `remote_upload_rendered_script` and `remote_tmux_launch_script` -/

/-- A script that is rendered for a remote: the template and its values, the time stamp of its
name, and what each copy of it does. -/
structure Upload where
  remote : Remote
  templateName : Text
  values : Config
  stamp : ℕ
  copies : ℕ → Copied

def Upload.name (u : Upload) : Text := renderedName u.templateName [] [] (some u.stamp)

/-- Jinja, the machines of the remotes, which of them are the host, and the directory of the
experiment. -/
structure Site (M : Type) where
  render : Text → Config → Text
  machine : Remote → M
  isLocal : Remote → Bool
  experiment : Text

/-- What is done with a script. `launch` starts it: it looks at the files `uses`. -/
inductive ScriptOp where
  | render (u : Upload)
  | copy (u : Upload) (c : Copied)
  | launch (u : Upload) (uses : List Upload)

namespace Site

variable {M : Type} (site : Site M)

def content (u : Upload) : Text := site.render u.templateName u.values

def dst (u : Upload) : Text := scriptDst site.experiment u.name

/-- The call of `remote_upload_file` raises. -/
def raises (u : Upload) : Bool :=
  remoteUploadFile (site.isLocal u.remote) u.copies = .unboundLocalError

/-- `remote_upload_rendered_script`. -/
def uploadOps (u : Upload) : List ScriptOp :=
  .render u :: (copyLoop u.copies maxRetries 0).map (.copy u)

/-- `remote_tmux_launch_script`: a copy that failed is only logged. -/
def launchOps (u : Upload) (uses : List Upload) : List ScriptOp :=
  uploadOps u ++ if site.raises u then [] else [.launch u uses]

/-- The directories after an operation. -/
def exec [DecidableEq M] (s : Renders M) : ScriptOp → Renders M
  | .render u => s.renderScript u.name (site.content u)
  | .copy u c => s.copy (site.machine u.remote) u.name c
  | .launch _ _ => s

end Site

/-! ## The attempts of `main` -/

/-- A rendering in an attempt. -/
structure Rendering where
  stamp : ℕ
  copies : ℕ → Copied

/-- An attempt: `curr_cfg`, the rendering of `prep_rules.sh` if the callback is called before, and
those of the threads. `late` says that `rx.sh` is rendered when `tx_run` has already set `gen_lua`,
and `starting` that `tx_run` saw the event it waits for. -/
structure AttemptScripts where
  cfg : Config
  prepRules : Option Rendering
  rxSh : Rendering
  late : Bool
  genPkts : Rendering
  starting : Bool
  launchPktgen : Rendering

namespace Site

variable {M : Type} (site : Site M) (a : AttemptScripts)

def prepRules (r : Rendering) : Upload :=
  ⟨.rx, "prep_rules.sh".toList, a.cfg, r.stamp, r.copies⟩

def genPkts : Upload :=
  ⟨.tx, "gen_pkts.lua".toList, a.cfg, a.genPkts.stamp, a.genPkts.copies⟩

/-- `cfg`, when `tx_run` has set `gen_lua`. -/
def luaCfg : Config := a.cfg.insert "gen_lua" (.str (String.ofList (site.dst (genPkts a))))

def launchPktgen : Upload :=
  ⟨.tx, "launch_pktgen.sh".toList, site.luaCfg a, a.launchPktgen.stamp, a.launchPktgen.copies⟩

def rxSh : Upload :=
  ⟨.rx, "rx.sh".toList, if a.late then site.luaCfg a else a.cfg, a.rxSh.stamp, a.rxSh.copies⟩

/-- The callback of `params_evts`. -/
def prepOps : List ScriptOp :=
  a.prepRules.elim [] fun r => site.launchOps (prepRules a r) [prepRules a r]

/-- `rx_run`. -/
def rxOps : List ScriptOp := site.launchOps (site.rxSh a) [site.rxSh a]

/-- `tx_run`. The script that it launches reads the file that is uploaded first. -/
def txOps : List ScriptOp :=
  uploadOps (genPkts a) ++
    if site.raises (genPkts a) ∨ a.starting = false then []
    else site.launchOps (site.launchPktgen a) [site.launchPktgen a, genPkts a]

/-- The callback raises, and `main` ends. -/
def prepRaises : Bool := a.prepRules.elim false fun r => site.raises (prepRules a r)

/-- A thread raises: its dictionary has no entry `error`, and `main` ends with a `KeyError`. -/
def threadRaises : Bool :=
  site.raises (site.rxSh a) || site.raises (genPkts a) ||
    (a.starting && site.raises (site.launchPktgen a))

/-- The operations of the loop of `main`. The threads of an attempt go on in any order. -/
inductive IsSession : List AttemptScripts → List ScriptOp → Prop
  | nil : IsSession [] []
  | prepRaises {a : AttemptScripts} : site.prepRaises a = true → IsSession [a] (site.prepOps a)
  | threadRaises {a : AttemptScripts} {threads : List ScriptOp} : site.prepRaises a = false →
      Interleaved (site.rxOps a) (site.txOps a) threads → site.threadRaises a = true →
      IsSession [a] (site.prepOps a ++ threads)
  | attempt {a : AttemptScripts} {as : List AttemptScripts} {threads ops : List ScriptOp} :
      site.prepRaises a = false → Interleaved (site.rxOps a) (site.txOps a) threads →
      site.threadRaises a = false → IsSession as ops →
      IsSession (a :: as) (site.prepOps a ++ threads ++ ops)

end Site

/-! ## `BatchedUploader` and `precompile_rxpc` -/

/-- The rendered scripts that are uploaded together, and their paths on the remote. -/
structure BatchedUploader where
  toUpload : List Text
  dsts : List Text

/-- How `BatchedUploader.upload` ends. -/
inductive BatchExit (M : Type) where
  | uploaded (s : Renders M) (dsts : List Text)
  | emptyList
  | fileNotFound
  | scpFailed

/-- A parameter set of `temp_params`, with the clock and the random digits when its script is
rendered. -/
structure PrecompileScript where
  cfg : Config
  now : ℕ
  randExt : ℕ

/-- The time stamp of the script. -/
def PrecompileScript.stamp (c : PrecompileScript) : ℕ := timestamp c.now c.randExt

/-- The name of the script. -/
def PrecompileScript.name (c : PrecompileScript) : Text :=
  renderedName "prep_rules.sh".toList [] [] (some c.stamp)

namespace Site

variable {M : Type} [DecidableEq M] (site : Site M)

/-- What the script of a parameter set is. -/
def prepared (c : PrecompileScript) : Text := site.render "prep_rules.sh".toList c.cfg

/-- `add_rendered_script`. -/
def addRenderedScript (b : BatchedUploader × Renders M) (c : PrecompileScript) :
    BatchedUploader × Renders M :=
  (⟨b.1.toUpload ++ [c.name], b.1.dsts ++ [scriptDst site.experiment c.name]⟩,
    b.2.renderScript c.name (site.prepared c))

/-- `upload`: one `scp` for all files. -/
def upload (b : BatchedUploader × Renders M) (r : Remote) (scp : Bool) : BatchExit M :=
  if b.1.toUpload = [] then .emptyList
  else if b.1.toUpload.all (fun name => (b.2.host name).isSome) = false then .fileNotFound
  else if scp then
    .uploaded (b.1.toUpload.foldl (fun s name => s.copy (site.machine r) name .done) b.2) b.1.dsts
  else .scpFailed

/-- `precompile_rxpc` up to the scripts that it starts on `rx`. -/
def precompileScripts (cfgs : List PrecompileScript) (s : Renders M) (scp : Bool) : BatchExit M :=
  site.upload (cfgs.foldl site.addRenderedScript (⟨[], []⟩, s)) .rx scp

end Site

end Autotest
end PamoRxpBench
