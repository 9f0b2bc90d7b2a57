import PamoRxpBench.Autotest.Renders

/-!
# What the scripts are that are started

The name of a rendered script tells its template and its time stamp (`renderedName_inj`), so the
threads of an attempt do not disturb each other's scripts. A script that is started in the loop of
`main` is the one that was rendered for it, if one of its copies succeeded (`session_launchesOwn`).
-/

namespace PamoRxpBench
namespace Autotest

open Text Filename Interleaving

/-! ## Names -/

/-- What is added to the name of a template stands before the extension. -/
theorem splitext_renderedName (templateName : Text) (stamp : ℕ) :
    splitext (renderedName templateName [] [] (some stamp)) =
      ((splitext templateName).1 ++ '_' :: decimal stamp, (splitext templateName).2) := by
  have hname : renderedName templateName [] [] (some stamp) =
      (splitext templateName).1 ++ '_' :: decimal stamp ++ (splitext templateName).2 := by
    show (splitext templateName).1 ++ '_' :: decimal stamp ++ [] ++ _ = _
    rw [List.append_nil]
  have hdigits : '.' ∉ '_' :: decimal stamp := by
    intro hmem
    rcases List.mem_cons.mp hmem with h | h
    · exact absurd h (by decide)
    · exact ne_of_isDigit (isDigit_of_mem_decimal h) (by decide) rfl
  rw [hname]
  exact splitext_insert templateName (List.cons_ne_nil _ _) hdigits

/-- The name tells the template and the time stamp. -/
theorem renderedName_inj {t t' : Text} {n n' : ℕ} :
    renderedName t [] [] (some n) = renderedName t' [] [] (some n') ↔ t = t' ∧ n = n' := by
  constructor
  · intro h
    have hsplit := congrArg splitext h
    rw [splitext_renderedName, splitext_renderedName, Prod.mk.injEq] at hsplit
    have hscore (n : ℕ) : '_' ∉ decimal n := fun hmem =>
      ne_of_isDigit (isDigit_of_mem_decimal hmem) (by decide) rfl
    obtain ⟨hroot, hdigits⟩ := append_cons_inj (hscore n) (hscore n') hsplit.1
    refine ⟨?_, decimal_injective hdigits⟩
    rw [← splitext_fst_append_snd t, ← splitext_fst_append_snd t', hroot, hsplit.2]
  · rintro ⟨rfl, rfl⟩
    rfl

theorem Upload.templateName_eq {u v : Upload} (h : u.name = v.name) :
    u.templateName = v.templateName :=
  (renderedName_inj.mp h).1

/-! ## One file -/

variable {M : Type} [DecidableEq M] {site : Site M}

/-- What the copies of a script leave of the file that was there before. -/
def Site.leaves (site : Site M) (u : Upload) (before : Option Text) : Option Text :=
  (copyLoop u.copies maxRetries 0).foldl (fun dst c => c.after (some (site.content u)) dst) before

/-- One copy that succeeds is enough, whatever the others before it left. -/
theorem foldl_copyLoop {copies : ℕ → Copied} {left nRetries : ℕ} {src : Option Text}
    (h : .done ∈ copyLoop copies left nRetries) (dst : Option Text) :
    (copyLoop copies left nRetries).foldl (fun dst c => c.after src dst) dst = src := by
  induction left generalizing nRetries dst with
  | zero => exact absurd h List.not_mem_nil
  | succ left ih =>
    rw [copyLoop] at h ⊢
    rw [List.foldl_cons]
    by_cases hdone : copies nRetries = .done
    · rw [if_pos hdone, hdone]
      rfl
    · rw [if_neg hdone] at h ⊢
      exact ih ((List.mem_cons.mp h).resolve_left (Ne.symm hdone)) _

omit [DecidableEq M] in
/-- The loop only ends early when a copy succeeded. -/
theorem Site.leaves_of_succeeded {u : Upload} {isLocal : Bool}
    (h : remoteUploadFile isLocal u.copies = .succeeded) (before : Option Text) :
    site.leaves u before = some (site.content u) := by
  unfold remoteUploadFile at h
  split at h
  · rename_i hdone
    exact foldl_copyLoop hdone before
  · split at h
    · cases h
    · cases h

/-- The upload that an operation belongs to. -/
def ScriptOp.upload : ScriptOp → Upload
  | .render u => u
  | .copy u _ => u
  | .launch u _ => u

/-- What there is under a name, on the host and on the machines. -/
def Renders.cell (s : Renders M) (name : Text) : Option Text × (M → Option Text) :=
  (s.host name, fun m => s.remote m name)

/-- What an operation does to the files of its name. -/
def Site.effect (site : Site M) : ScriptOp → Option Text × (M → Option Text) →
    Option Text × (M → Option Text)
  | .render u, files => (some (site.content u), files.2)
  | .copy u c, files =>
    (files.1, Function.update files.2 (site.machine u.remote)
      (c.after files.1 (files.2 (site.machine u.remote))))
  | .launch _ _, files => files

omit [DecidableEq M] in
theorem Renders.cell_renderScript (s : Renders M) (name content : Text) :
    (s.renderScript name content).cell =
      Function.update s.cell name (some content, fun m => s.remote m name) := by
  funext other
  show (Function.update s.host name (some content) other, fun m => s.remote m other) = _
  by_cases h : other = name
  · rw [h, Function.update_self, Function.update_self]
  · rw [Function.update_of_ne h, Function.update_of_ne h]
    rfl

theorem Renders.cell_copy (s : Renders M) (m : M) (name : Text) (c : Copied) :
    (s.copy m name c).cell =
      Function.update s.cell name (s.host name, Function.update (fun m => s.remote m name) m
        (c.after (s.host name) (s.remote m name))) := by
  funext other
  have hremote (m' : M) : (s.copy m name c).remote m' other =
      if m' = m ∧ other = name then c.after (s.host name) (s.remote m name)
      else s.remote m' other := by
    show Function.update s.remote m _ m' other = _
    by_cases hm : m' = m
    · rw [hm, Function.update_self, Function.update_apply]
      simp
    · rw [Function.update_of_ne hm, if_neg fun h => hm h.1]
  by_cases h : other = name
  · rw [h] at hremote ⊢
    rw [Function.update_self]
    refine Prod.ext rfl (funext fun m' => ?_)
    show (s.copy m name c).remote m' name = Function.update (fun m => s.remote m name) m _ m'
    rw [hremote, Function.update_apply]
    simp
  · rw [Function.update_of_ne h]
    refine Prod.ext rfl (funext fun m' => ?_)
    show (s.copy m name c).remote m' other = _
    rw [hremote, if_neg fun hboth => h hboth.2]
    rfl

theorem Site.cell_exec (s : Renders M) (op : ScriptOp) :
    (site.exec s op).cell = act (fun op => op.upload.name) site.effect s.cell op := by
  cases op with
  | render u => exact s.cell_renderScript u.name (site.content u)
  | copy u c => exact s.cell_copy (site.machine u.remote) u.name c
  | launch u uses => exact (Function.update_eq_self u.name s.cell).symm

/-- The files of a name only depend on the operations of its upload. -/
theorem Site.cell_foldl_exec (ops : List ScriptOp) (s : Renders M) (name : Text) :
    (ops.foldl site.exec s).cell name =
      (ops.filter fun op => op.upload.name = name).foldl (fun files op => site.effect op files)
        (s.cell name) := by
  rw [← foldl_act_apply]
  apply congrFun
  induction ops generalizing s with
  | nil => rfl
  | cons op ops ih => rw [List.foldl_cons, List.foldl_cons, ih, cell_exec]

/-! ## The scripts of a session -/

/-- A script was rendered, and then only its own copies used its name. -/
def Kept (before : List ScriptOp) (v : Upload) : Prop :=
  ∃ earlier rest, before = earlier ++ .render v :: rest ∧
    (rest.filter fun op => op.upload.name = v.name) =
      (copyLoop v.copies maxRetries 0).map (.copy v)

theorem Kept.append {before : List ScriptOp} {v : Upload} (h : Kept before v)
    (ops : List ScriptOp) : Kept (ops ++ before) v := by
  obtain ⟨earlier, rest, rfl, hrest⟩ := h
  exact ⟨ops ++ earlier, rest, (List.append_assoc _ _ _).symm, hrest⟩

theorem Site.foldl_effect_copies (u : Upload) (copies : List Copied) (src : Option Text)
    (remote : M → Option Text) :
    ((copies.map (ScriptOp.copy u)).foldl (fun files op => site.effect op files) (src, remote)).2
        (site.machine u.remote) =
      copies.foldl (fun dst c => c.after src dst) (remote (site.machine u.remote)) := by
  induction copies generalizing remote with
  | nil => rfl
  | cons c copies ih =>
    rw [List.map_cons, List.foldl_cons, List.foldl_cons]
    refine (ih _).trans ?_
    rw [Function.update_self]

/-- What is found under the name of a script that was kept. -/
theorem Kept.found {before : List ScriptOp} {v : Upload} (h : Kept before v) (s : Renders M) :
    ∃ earlier rest, before = earlier ++ .render v :: rest ∧
      (before.foldl site.exec s).remote (site.machine v.remote) v.name =
        site.leaves v ((earlier.foldl site.exec s).remote (site.machine v.remote) v.name) := by
  obtain ⟨earlier, rest, rfl, hrest⟩ := h
  refine ⟨earlier, rest, rfl, ?_⟩
  have hcell :
      (rest.foldl site.exec (site.exec (earlier.foldl site.exec s) (.render v))).cell v.name =
      _ := Site.cell_foldl_exec rest (site.exec (earlier.foldl site.exec s) (.render v)) v.name
  have hself : act (fun op => op.upload.name) site.effect (earlier.foldl site.exec s).cell
      (.render v) v.name = site.effect (.render v) ((earlier.foldl site.exec s).cell v.name) :=
    Function.update_self _ _ _
  rw [hrest, Site.cell_exec, hself] at hcell
  rw [List.foldl_append, List.foldl_cons]
  refine (congrFun (congrArg Prod.snd hcell) (site.machine v.remote)).trans ?_
  exact Site.foldl_effect_copies v _ _ _

/-- Only the last operation is a launch. -/
theorem launch_last {ops us₁ us₂ : List ScriptOp} {u w : Upload} {uses ws : List Upload} {c : Bool}
    (hops : ∀ w ws, .launch w ws ∉ ops)
    (h : (ops ++ if c then [] else [.launch u uses]) = us₁ ++ .launch w ws :: us₂) :
    us₁ = ops ∧ w = u ∧ ws = uses := by
  cases c with
  | true =>
    rw [if_pos rfl, List.append_nil] at h
    exact absurd (h ▸ List.mem_append_right us₁ List.mem_cons_self) (hops w ws)
  | false =>
    rw [if_neg Bool.false_ne_true] at h
    rcases List.append_eq_append_iff.mp h with ⟨t, hus, ht⟩ | ⟨t, hus, ht⟩
    · cases t with
      | nil =>
        rw [List.append_nil] at hus
        injection (List.cons.inj ht).1 with hw hws
        exact ⟨hus, hw.symm, hws.symm⟩
      | cons x t => exact absurd (List.cons.inj ht).2 (by simp)
    · cases t with
      | nil =>
        rw [List.append_nil] at hus
        injection (List.cons.inj ht).1 with hw hws
        exact ⟨hus.symm, hw, hws⟩
      | cons x t =>
        refine absurd ?_ (hops w ws)
        rw [hus, (List.cons.inj ht).1]
        exact List.mem_append_right us₁ List.mem_cons_self

theorem launch_not_mem_uploadOps {u w : Upload} {ws : List Upload} :
    .launch w ws ∉ Site.uploadOps u := by
  simp [Site.uploadOps]

theorem upload_of_mem_uploadOps {u : Upload} {op : ScriptOp} (h : op ∈ Site.uploadOps u) :
    op.upload = u := by
  rcases List.mem_cons.mp h with rfl | h
  · rfl
  · obtain ⟨c, _, rfl⟩ := List.mem_map.mp h
    rfl

theorem filter_copies (u : Upload) :
    (((copyLoop u.copies maxRetries 0).map (ScriptOp.copy u)).filter fun op =>
      op.upload.name = u.name) = (copyLoop u.copies maxRetries 0).map (.copy u) := by
  rw [List.filter_eq_self]
  intro op hop
  obtain ⟨c, _, rfl⟩ := List.mem_map.mp hop
  exact decide_eq_true rfl

/-- The other thread does not use the name. -/
theorem Kept.of_interleaved {us vs before : List ScriptOp} {v : Upload} (h : Kept us v)
    (hinter : Interleaved us vs before) (hvs : ∀ op ∈ vs, op.upload.name ≠ v.name) :
    Kept before v := by
  obtain ⟨earlier, rest, rfl, hrest⟩ := h
  obtain ⟨p, q, vs₁, vs₂, rfl, rfl, _, hq⟩ := hinter.cut_left
  refine ⟨p, q, rfl, ?_⟩
  rw [hq.filter_eq_left fun op hop => decide_eq_false (hvs op (List.mem_append_right vs₁ hop))]
  exact hrest

theorem kept_uploadOps (v : Upload) : Kept (Site.uploadOps v) v :=
  ⟨[], _, rfl, filter_copies v⟩

namespace Site

omit [DecidableEq M]

variable {a : AttemptScripts}

theorem launchPktgen_name_ne : (site.launchPktgen a).name ≠ (genPkts a).name := by
  intro h
  have htemplate : "launch_pktgen.sh".toList = "gen_pkts.lua".toList := Upload.templateName_eq h
  exact absurd htemplate (by decide)

theorem rxSh_name_ne : (site.rxSh a).name ≠ (site.launchPktgen a).name ∧
    (site.rxSh a).name ≠ (genPkts a).name := by
  constructor
  · intro h
    have htemplate : "rx.sh".toList = "launch_pktgen.sh".toList := Upload.templateName_eq h
    exact absurd htemplate (by decide)
  · intro h
    have htemplate : "rx.sh".toList = "gen_pkts.lua".toList := Upload.templateName_eq h
    exact absurd htemplate (by decide)

theorem upload_of_mem_launchOps {u : Upload} {uses : List Upload} {op : ScriptOp}
    (h : op ∈ site.launchOps u uses) : op.upload = u := by
  rcases List.mem_append.mp h with h | h
  · exact upload_of_mem_uploadOps h
  · split at h
    · exact absurd h List.not_mem_nil
    · rw [List.mem_singleton.mp h]
      rfl

theorem upload_of_mem_txOps {op : ScriptOp} (h : op ∈ site.txOps a) :
    op.upload = genPkts a ∨ op.upload = site.launchPktgen a := by
  rcases List.mem_append.mp h with h | h
  · exact Or.inl (upload_of_mem_uploadOps h)
  · split at h
    · exact absurd h List.not_mem_nil
    · exact Or.inr (upload_of_mem_launchOps h)

theorem kept_launchOps {u w : Upload} {ws : List Upload} {before after : List ScriptOp}
    (h : site.launchOps u [u] = before ++ .launch w ws :: after) {v : Upload} (hv : v ∈ ws) :
    v = u ∧ Kept before v := by
  obtain ⟨rfl, _, rfl⟩ := launch_last (fun _ _ => launch_not_mem_uploadOps) h
  rw [List.mem_singleton.mp hv]
  exact ⟨rfl, kept_uploadOps u⟩

/-- The file that `launch_pktgen.sh` reads is still there when it is started. -/
theorem kept_txOps {w : Upload} {ws : List Upload} {before after : List ScriptOp}
    (h : site.txOps a = before ++ .launch w ws :: after) {v : Upload} (hv : v ∈ ws) :
    (v = site.launchPktgen a ∨ v = genPkts a) ∧ Kept before v := by
  unfold txOps at h
  split at h
  · rw [List.append_nil] at h
    have hnot : .launch w ws ∉ uploadOps (genPkts a) := launch_not_mem_uploadOps
    refine absurd ?_ hnot
    rw [h]
    exact List.mem_append_right before List.mem_cons_self
  · rw [launchOps, ← List.append_assoc] at h
    obtain ⟨rfl, _, rfl⟩ := launch_last (fun w ws hmem => (List.mem_append.mp hmem).elim
      launch_not_mem_uploadOps launch_not_mem_uploadOps) h
    rcases List.mem_cons.mp hv with rfl | hv
    · exact ⟨Or.inl rfl, (kept_uploadOps _).append _⟩
    · rw [List.mem_singleton.mp hv]
      refine ⟨Or.inr rfl, [], (copyLoop _ maxRetries 0).map _ ++ uploadOps _, rfl, ?_⟩
      rw [List.filter_append, filter_copies, List.filter_eq_nil_iff.mpr, List.append_nil]
      intro op hop hname
      rw [upload_of_mem_uploadOps hop] at hname
      exact launchPktgen_name_ne (of_decide_eq_true hname)

/-- Neither thread uses a name of the other one. -/
theorem kept_threads {threads before after : List ScriptOp} {w : Upload} {ws : List Upload}
    (hthreads : Interleaved (site.rxOps a) (site.txOps a) threads)
    (h : threads = before ++ .launch w ws :: after) {v : Upload} (hv : v ∈ ws) :
    Kept before v := by
  rw [h] at hthreads
  rcases hthreads.cut with ⟨us₁, us₂, vs₁, vs₂, hrx, htx, hcut⟩ |
    ⟨us₁, us₂, vs₁, vs₂, hrx, htx, hcut⟩
  · obtain ⟨rfl, hkept⟩ := kept_launchOps hrx hv
    refine hkept.of_interleaved hcut fun op hop => ?_
    rcases upload_of_mem_txOps (htx ▸ List.mem_append_left vs₂ hop) with hup | hup
    · rw [hup]
      exact Ne.symm rxSh_name_ne.2
    · rw [hup]
      exact Ne.symm rxSh_name_ne.1
  · obtain ⟨hv, hkept⟩ := kept_txOps htx hv
    refine hkept.of_interleaved hcut.symm fun op hop => ?_
    rw [upload_of_mem_launchOps (hrx ▸ List.mem_append_left us₂ hop)]
    rcases hv with rfl | rfl
    · exact rxSh_name_ne.1
    · exact rxSh_name_ne.2

theorem kept_prepOps {before after : List ScriptOp} {w : Upload} {ws : List Upload}
    (h : site.prepOps a = before ++ .launch w ws :: after) {v : Upload} (hv : v ∈ ws) :
    Kept before v := by
  unfold prepOps at h
  cases hprep : a.prepRules with
  | none =>
    rw [hprep] at h
    exact absurd h (by simp)
  | some r =>
    rw [hprep] at h
    exact (kept_launchOps h hv).2

/-- At every launch in the loop the files of the script are kept. -/
theorem IsSession.kept {as : List AttemptScripts} {ops : List ScriptOp}
    (h : site.IsSession as ops) {before after : List ScriptOp} {w : Upload} {ws : List Upload}
    (hops : ops = before ++ .launch w ws :: after) {v : Upload} (hv : v ∈ ws) : Kept before v := by
  induction h generalizing before after with
  | nil => exact absurd hops (by simp)
  | prepRaises _ => exact kept_prepOps hops hv
  | threadRaises _ hthreads _ =>
    rcases append_cut hops with ⟨after', hprep⟩ | ⟨before', rfl, hcut⟩
    · exact kept_prepOps hprep hv
    · exact (kept_threads hthreads hcut hv).append _
  | attempt _ hthreads _ _ ih =>
    rcases append_cut hops with ⟨after', hfirst⟩ | ⟨before', rfl, hrest⟩
    · rcases append_cut hfirst with ⟨after'', hprep⟩ | ⟨before', rfl, hcut⟩
      · exact kept_prepOps hprep hv
      · exact (kept_threads hthreads hcut hv).append _
    · exact (ih hrest).append _

end Site

/-- **A script that is started is the one that was rendered for it.** Take the loop of `main` in any
session, with any time stamps, any failing copies and the threads of its attempts in any order. What
a script that is started there finds under its name, and `launch_pktgen.sh` also under the name of
the file for `pktgen`, is what was rendered for this launch, if one of the copies succeeded.
Otherwise it is what the failing copies left of the file that was there when the script was
rendered. -/
theorem session_launchesOwn {as : List AttemptScripts} {ops : List ScriptOp}
    (h : site.IsSession as ops) (s : Renders M) {before after : List ScriptOp} {w : Upload}
    {uses : List Upload} (hops : ops = before ++ .launch w uses :: after) {v : Upload}
    (hv : v ∈ uses) :
    (remoteUploadFile (site.isLocal v.remote) v.copies = .succeeded →
      (before.foldl site.exec s).remote (site.machine v.remote) v.name = some (site.content v)) ∧
      ∃ earlier rest, before = earlier ++ .render v :: rest ∧
        (before.foldl site.exec s).remote (site.machine v.remote) v.name =
          site.leaves v ((earlier.foldl site.exec s).remote (site.machine v.remote) v.name) := by
  obtain ⟨earlier, rest, hbefore, hfound⟩ := (h.kept hops hv).found s
  refine ⟨fun hsucceeded => ?_, earlier, rest, hbefore, hfound⟩
  rw [hfound]
  exact Site.leaves_of_succeeded hsucceeded _

/-- One machine; a template renders to its own name and the number of rules. -/
def plainSite : Site Unit where
  render t cfg := t ++ (cfg.lookup "n_rules").elim [] fun v => v.toText.toList
  machine _ := ()
  isLocal _ := false
  experiment := "exp".toList

/-- The first copy of `rx.sh` breaks off, and no copy of `launch_pktgen.sh` succeeds. -/
def oneAttempt : AttemptScripts where
  cfg := ∅
  prepRules := none
  rxSh := ⟨5, fun n => if n = 0 then .failed (some ['r']) else .done⟩
  late := false
  genPkts := ⟨5, fun _ => .done⟩
  starting := true
  launchPktgen := ⟨5, fun _ => .failed none⟩

/-- The threads take turns until `rx.sh` is started. -/
def oneRx : List ScriptOp :=
  [.render (Site.genPkts oneAttempt), .render (plainSite.rxSh oneAttempt),
    .copy (plainSite.rxSh oneAttempt) (.failed (some ['r'])), .copy (Site.genPkts oneAttempt) .done,
    .copy (plainSite.rxSh oneAttempt) .done]

/-- `launch_pktgen.sh` is started all the same. -/
def oneTx : List ScriptOp :=
  plainSite.launchOps (plainSite.launchPktgen oneAttempt)
    [plainSite.launchPktgen oneAttempt, Site.genPkts oneAttempt]

theorem oneAttempt_session : plainSite.IsSession [oneAttempt]
    (oneRx ++ .launch (plainSite.rxSh oneAttempt) [plainSite.rxSh oneAttempt] :: oneTx) := by
  have hthreads : Interleaved (plainSite.rxOps oneAttempt) (plainSite.txOps oneAttempt)
      (oneRx ++ .launch (plainSite.rxSh oneAttempt) [plainSite.rxSh oneAttempt] :: oneTx) :=
    .right _ <| .left _ <| .left _ <| .right _ <| .left _ <| .left _ <|
      (Interleaved.of_nil_right oneTx).symm
  rw [← List.append_nil (_ ++ _)]
  exact .attempt rfl hthreads rfl .nil

theorem session_launchesOwn_oneAttempt :
    (oneRx.foldl plainSite.exec ⟨fun _ => none, fun _ _ => none⟩).remote ()
      (plainSite.rxSh oneAttempt).name = some "rx.sh".toList :=
  (session_launchesOwn oneAttempt_session ⟨fun _ => none, fun _ _ => none⟩ rfl
    (List.mem_singleton_self _)).1 rfl

/-! ## The scripts of `precompile_rxpc` -/

omit [DecidableEq M] in
theorem Renders.host_renderScript_of_ne (s : Renders M) {name other : Text} (content : Text)
    (h : other ≠ name) : (s.renderScript name content).host other = s.host other :=
  Function.update_of_ne h _ _

namespace Site

omit [DecidableEq M] in
theorem foldl_addRenderedScript (cfgs : List PrecompileScript) (b : BatchedUploader × Renders M) :
    cfgs.foldl site.addRenderedScript b =
      (⟨b.1.toUpload ++ cfgs.map PrecompileScript.name,
        b.1.dsts ++ cfgs.map fun c => scriptDst site.experiment c.name⟩,
        cfgs.foldl (fun s c => s.renderScript c.name (site.prepared c)) b.2) := by
  induction cfgs generalizing b with
  | nil => rw [List.map_nil, List.map_nil, List.append_nil, List.append_nil]; rfl
  | cons c cfgs ih =>
    rw [List.foldl_cons, ih]
    simp [addRenderedScript]

omit [DecidableEq M] in
/-- The last one of the scripts with a name. -/
theorem host_foldl_renderScript {before after : List PrecompileScript} {c : PrecompileScript}
    (hlast : ∀ d ∈ after, d.stamp ≠ c.stamp) (s : Renders M) :
    ((before ++ c :: after).foldl (fun s c => s.renderScript c.name (site.prepared c)) s).host
        c.name = some (site.prepared c) := by
  rw [List.foldl_append, List.foldl_cons]
  induction after using List.reverseRecOn with
  | nil => exact Function.update_self _ _ _
  | append_singleton after d ih =>
    rw [List.foldl_append, List.foldl_cons, List.foldl_nil, Renders.host_renderScript_of_ne]
    · exact ih fun e he => hlast e (List.mem_append_left _ he)
    · intro hname
      exact hlast d (List.mem_append_right _ (List.mem_singleton_self d))
        (renderedName_inj.mp hname).2.symm

/-- Copies of several files change these and no others. -/
theorem remote_foldl_copy {m : M} (names : List Text) (s : Renders M) (name : Text) :
    (names.foldl (fun s name => s.copy m name .done) s).remote m name =
      if name ∈ names then s.host name else s.remote m name := by
  induction names generalizing s with
  | nil => rfl
  | cons first names ih =>
    have hremote : (s.copy m first .done).remote m =
        Function.update (s.remote m) first (s.host first) := Function.update_self _ _ _
    rw [List.foldl_cons, ih, hremote]
    by_cases hmem : name ∈ names
    · rw [if_pos hmem, if_pos (List.mem_cons_of_mem first hmem)]
      rfl
    · rw [if_neg hmem]
      by_cases hfirst : name = first
      · rw [hfirst, Function.update_self, if_pos List.mem_cons_self]
      · rw [Function.update_of_ne hfirst,
          if_neg fun h => (List.mem_cons.mp h).elim hfirst hmem]

variable {cfgs : List PrecompileScript} {s s' : Renders M} {scp : Bool} {dsts : List Text}

theorem upload_eq_uploaded (h : site.precompileScripts cfgs s scp = .uploaded s' dsts) :
    s' = (cfgs.map PrecompileScript.name).foldl (fun s name => s.copy (site.machine .rx) name .done)
        (cfgs.foldl (fun s c => s.renderScript c.name (site.prepared c)) s) ∧
      dsts = cfgs.map (fun c => scriptDst site.experiment c.name) := by
  unfold precompileScripts upload at h
  rw [foldl_addRenderedScript] at h
  split at h
  · cases h
  · split at h
    · cases h
    · split at h
      · injection h with hs' hdsts
        exact ⟨hs'.symm, hdsts.symm⟩
      · cases h

/-- What `rx` has under the name of the last script with a time stamp. -/
theorem remote_of_uploaded (h : site.precompileScripts cfgs s scp = .uploaded s' dsts)
    {before after : List PrecompileScript} {c : PrecompileScript}
    (hcfgs : cfgs = before ++ c :: after) (hlast : ∀ d ∈ after, d.stamp ≠ c.stamp) :
    s'.remote (site.machine .rx) c.name = some (site.prepared c) := by
  rw [(upload_eq_uploaded h).1, remote_foldl_copy, hcfgs, host_foldl_renderScript hlast, if_pos]
  rw [List.map_append]
  exact List.mem_append_right _ List.mem_cons_self

/-- Two parameter sets have the same time stamp. -/
def SameStamp (c d : PrecompileScript) : Prop :=
  c.now % tsPeriodDefault = d.now % tsPeriodDefault ∧ c.randExt = d.randExt

theorem stamp_eq_iff {c d : PrecompileScript} (hc : c.randExt < 10 ^ 4) (hd : d.randExt < 10 ^ 4) :
    c.stamp = d.stamp ↔ SameStamp c d := by
  unfold PrecompileScript.stamp timestamp SameStamp
  omega

/-- **Precompilation loses the parameter sets whose time stamps are taken again.** Whatever the
clock and the random digits were, when the scripts are uploaded each path has the script of its own
parameter set if and only if parameter sets with the same time stamp have the same script; and the
scripts that are started are those of the parameter sets whose time stamp no later one has. -/
theorem precompileScripts_runsOwn (hdigits : ∀ c ∈ cfgs, c.randExt < 10 ^ 4)
    (h : site.precompileScripts cfgs s scp = .uploaded s' dsts) :
    dsts = cfgs.map (fun c => scriptDst site.experiment c.name) ∧
      ((∀ c ∈ cfgs, s'.remote (site.machine .rx) c.name = some (site.prepared c)) ↔
        ∀ c ∈ cfgs, ∀ d ∈ cfgs, SameStamp c d → site.prepared c = site.prepared d) ∧
      ∀ script, (∃ c ∈ cfgs, s'.remote (site.machine .rx) c.name = some script) ↔
        ∃ before c after, cfgs = before ++ c :: after ∧ site.prepared c = script ∧
          ∀ d ∈ after, ¬ SameStamp d c := by
  -- each path has the script of the last parameter set with its time stamp
  have hpath : ∀ c ∈ cfgs, ∃ before d after, cfgs = before ++ d :: after ∧ SameStamp d c ∧
      (∀ e ∈ after, ¬ SameStamp e d) ∧ d.name = c.name ∧
        s'.remote (site.machine .rx) d.name = some (site.prepared d) := by
    intro c hc
    obtain ⟨before, d, after, hcfgs, hd, hafter⟩ :=
      exists_last (p := fun d => d.stamp = c.stamp) ⟨c, hc, rfl⟩
    have hmem : ∀ e, e = d ∨ e ∈ after → e ∈ cfgs := by
      intro e he
      rw [hcfgs]
      exact List.mem_append_right before (List.mem_cons.mpr he)
    have hdlt := hdigits d (hmem d (Or.inl rfl))
    refine ⟨before, d, after, hcfgs, (stamp_eq_iff hdlt (hdigits c hc)).mp hd, ?_, ?_, ?_⟩
    · intro e he hsame
      refine hafter e he ?_
      rw [(stamp_eq_iff (hdigits e (hmem e (Or.inr he))) hdlt).mpr hsame, hd]
    · exact renderedName_inj.mpr ⟨rfl, hd⟩
    · refine remote_of_uploaded h hcfgs fun e he => ?_
      rw [hd]
      exact hafter e he
  refine ⟨?_, ⟨?_, ?_⟩, fun script => ⟨?_, ?_⟩⟩
  · exact (upload_eq_uploaded h).2
  · intro hown c hc d hd hsame
    have hname : c.name = d.name :=
      renderedName_inj.mpr ⟨rfl, (stamp_eq_iff (hdigits c hc) (hdigits d hd)).mpr hsame⟩
    have hdown := hown d hd
    rw [← hname, hown c hc] at hdown
    exact Option.some.inj hdown
  · intro hsame c hc
    obtain ⟨before, d, after, hcfgs, hstamp, -, hname, hremote⟩ := hpath c hc
    have hd : d ∈ cfgs := hcfgs ▸ List.mem_append_right before List.mem_cons_self
    rw [← hname, hremote, hsame d hd c hc hstamp]
  · intro ⟨c, hc, hscript⟩
    obtain ⟨before, d, after, hcfgs, -, hafter, hname, hremote⟩ := hpath c hc
    rw [← hname, hremote] at hscript
    exact ⟨before, d, after, hcfgs, Option.some.inj hscript, hafter⟩
  · intro ⟨before, c, after, hcfgs, hscript, hafter⟩
    have hmem : ∀ e, e = c ∨ e ∈ after → e ∈ cfgs := by
      intro e he
      rw [hcfgs]
      exact List.mem_append_right before (List.mem_cons.mpr he)
    refine ⟨c, hmem c (Or.inl rfl), ?_⟩
    rw [remote_of_uploaded h hcfgs, hscript]
    intro d hd hstamp
    exact hafter d hd ((stamp_eq_iff (hdigits d (hmem d (Or.inr hd)))
      (hdigits c (hmem c (Or.inl rfl)))).mp hstamp)

/-- The first two scripts have the same time stamp, a period apart. -/
def threeScripts : List PrecompileScript :=
  [⟨AList.insert "n_rules" (.str "100") ∅, 7, 31⟩,
    ⟨AList.insert "n_rules" (.str "200") ∅, 1000007, 31⟩,
    ⟨AList.insert "n_rules" (.str "300") ∅, 7, 32⟩]

/-- One of the scripts is not that of its parameter set. -/
theorem precompileScripts_runsOwn_threeScripts : ∃ s' dsts,
    plainSite.precompileScripts threeScripts ⟨fun _ => none, fun _ _ => none⟩ true =
        .uploaded s' dsts ∧
      ¬ ∀ c ∈ threeScripts, s'.remote () c.name = some (plainSite.prepared c) := by
  obtain ⟨s', dsts, h⟩ : ∃ s' dsts, plainSite.precompileScripts threeScripts
      ⟨fun _ => none, fun _ _ => none⟩ true = .uploaded s' dsts := ⟨_, _, rfl⟩
  refine ⟨s', dsts, h, fun hown => ?_⟩
  have hsame := (precompileScripts_runsOwn (by decide) h).2.1.mp hown
    ⟨AList.insert "n_rules" (.str "100") ∅, 7, 31⟩ List.mem_cons_self
    ⟨AList.insert "n_rules" (.str "200") ∅, 1000007, 31⟩
    (List.mem_cons_of_mem _ List.mem_cons_self) ⟨by decide, rfl⟩
  exact absurd hsame (by decide)

end Site

end Autotest
end PamoRxpBench
