import PamoRxpBench.Data.FilterTheorems
import PamoRxpBench.Data.WorkingSetTheorems

/-!
# What `gen_working_set` writes

`full_rxpc_filter` writes the output file, and `filter_hyperscan` reads it and writes it again. The
first filter leaves the rules of its last call (`fullRxpcFilter_leaves`), and the second one takes
out those that own an expression behind a failing one, or raises and leaves the file as it is
(`genWorkingSet_leaves`).
-/

namespace PamoRxpBench
namespace Data

variable {parseRule : Text → Option Rule} {rxpc : ℕ → Text → RxpcOutput} {maxRules : ℕ}
  {dbIn : List Text}

/-! ## The rules behind the loop -/

/-- The rules that `full_rxpc_filter` leaves: those that its last call of `filter_rxpc` has left. -/
structure FullFiltered (rxpc : ℕ → Text → RxpcOutput) (iterative : Bool)
    (db : Database parseRule dbIn) (s : FullFilter) (out : Database parseRule s.dbOut) : Prop where
  entries : out.entries.Sublist db.entries
  compiled : ∀ e ∈ out.entries, ∀ x ∈ e.rule.enabledPatterns true true,
    ∃ p ∈ s.st.inRgxs, p.pattern = x ∧ p.id ∉ s.reported
  fixpoint : iterative = true → Fixpoint parseRule rxpc s

/-- The loop, with the rules that it leaves. -/
theorem filterLoop_leaves (hrxpc : RxpcDocumented parseRule rxpc maxRules dbIn) {fuel : ℕ}
    {file : List Text} {db : Database parseRule file} {n : ℕ} {s : FullFilter}
    {out : Database parseRule s.dbOut} (hfile : (ruleLines file).Sublist (ruleLines dbIn))
    (h : Filtered rxpc db n s out) (hfuel : db.entries.length < fuel) :
    ∃ res, ∃ out' : Database parseRule res.dbOut,
      filterLoop parseRule rxpc maxRules fuel s = .ok res ∧
        FullFiltered rxpc true db res out' := by
  -- each call reads the rules that the one before it left, so the database changes with the fuel
  induction fuel generalizing file n s with
  | zero => exact absurd hfuel (Nat.not_lt_zero _)
  | succ fuel ih =>
    obtain ⟨count, hcount, hless⟩ := h.count
    unfold filterLoop
    rw [hcount]
    by_cases hpos : count > 0
    · -- a positive count takes out at least one rule
      have hlt := hless hpos
      have hout : (ruleLines s.dbOut).Sublist (ruleLines dbIn) :=
        (out.ruleLines_sublist db h.entries).trans hfile
      obtain ⟨s', out', hcall, h'⟩ := filterCall_spec hrxpc out hout (s.nIt + 1)
      obtain ⟨res, left, hres, hleft⟩ := ih hout h' (by omega)
      refine ⟨res, left, ?_, hleft.entries.trans h.entries, hleft.compiled, hleft.fixpoint⟩
      show (if count > 0 then _ else _) = _
      rw [if_pos hpos, hcall]
      exact hres
    · obtain rfl : count = 0 := by omega
      exact ⟨s, out, rfl, h.entries, h.compiled, fun _ => h.fixpoint hcount⟩

theorem fullRxpcFilter_leaves (hrxpc : RxpcDocumented parseRule rxpc maxRules dbIn)
    (db : Database parseRule dbIn) {fuel : ℕ} (hfuel : db.entries.length < fuel)
    (iterative : Bool) :
    ∃ s, ∃ out : Database parseRule s.dbOut,
      fullRxpcFilter parseRule rxpc maxRules iterative fuel dbIn = .ok s ∧
        FullFiltered rxpc iterative db s out := by
  obtain ⟨s, out, hcall, h⟩ := filterCall_spec hrxpc db (List.Sublist.refl _) 1
  unfold fullRxpcFilter
  rw [hcall]
  cases iterative with
  | false => exact ⟨s, out, rfl, h.entries, h.compiled, fun hfalse => absurd hfalse (by decide)⟩
  | true => exact filterLoop_leaves hrxpc (List.Sublist.refl _) h hfuel

/-! ## The second filter -/

/-- The rules that do not own an expression behind a failing one. -/
def Database.notBehind {file : List Text} (out : Database parseRule file)
    (verdicts : List Verdict) :
    List (RuleEntry parseRule) :=
  out.entries.filter fun e => ∀ id ∈ failedIds verdicts, out.owner id ≠ some e

/-- `filter_hyperscan` ends without an exception if every body can be searched for and the last
expression does not fail. -/
structure HyperscanEnds {file : List Text} (out : Database parseRule file)
    (verdicts : List Verdict) : Prop where
  nonempty : ∀ x ∈ out.expressions, searchBody x.2 ≠ some []
  notLast : out.expressions.length ∉ failedIds verdicts

/-- Where it ends, `filter_hyperscan` leaves the rules that own no expression behind a failing one.
-/
theorem filterHyperscan_of_ends {hscheck : Text → Completed} {file : List Text}
    {out : Database parseRule file} {verdicts : List Verdict}
    (hchecked : Checked hscheck out verdicts)
    (h : HyperscanEnds out verdicts) :
    filterHyperscan parseRule hscheck file =
      .ok ((out.notBehind verdicts).map fun e => e.line ++ ['\n']) := by
  obtain ⟨id2sid, hget, heq⟩ := filterHyperscan_of_nonempty hchecked h.nonempty
  have hlookup : ∀ id ∈ failedIds verdicts, IdMap.get? id2sid id ≠ none := by
    intro id hid hnone
    obtain ⟨k, x, rfl, hx, -⟩ := hchecked.numbered id hid
    have hk := (List.getElem?_eq_some_iff.mp hx).1
    rw [hget, Option.map_eq_none_iff, owner_eq_none_iff] at hnone
    exact h.notLast (show out.expressions.length = k + 1 by omega ▸ hid)
  obtain ⟨excluded, hfold, hmem⟩ := exists_foldlM_excludeId hlookup []
  rw [heq, hfold]
  show Except.ok _ = Except.ok _
  congr 2
  refine List.filter_congr fun e he => decide_eq_decide.mpr ?_
  rw [sid_mem_excluded_iff hget hmem he, not_exists]
  exact forall_congr' fun id => not_and

/-- It ends only if no body is empty and the last expression does not fail. -/
theorem ends_of_filterHyperscan {hscheck : Text → Completed} {file lines : List Text}
    {out : Database parseRule file} {verdicts : List Verdict}
    (hchecked : Checked hscheck out verdicts)
    (h : filterHyperscan parseRule hscheck file = .ok lines) : HyperscanEnds out verdicts where
  nonempty := nonempty_of_filterHyperscan_ok out h
  notLast := by
    obtain ⟨id2sid, hget, heq⟩ :=
      filterHyperscan_of_nonempty hchecked (nonempty_of_filterHyperscan_ok out h)
    rw [heq] at h
    obtain ⟨excluded, hfold, _⟩ := bind_eq_ok h
    intro hid
    refine foldlM_excludeId_ok hfold _ hid ?_
    rw [hget, Option.map_eq_none_iff, owner_eq_none_iff]

/-- Hyperscan has taken every rule that is left if and only if the rule of each failing expression
also owns an expression behind a failing one. -/
theorem notBehind_accepted_iff {hscheck : Text → Completed} {file : List Text}
    {out : Database parseRule file} {verdicts : List Verdict}
    (hchecked : Checked hscheck out verdicts) :
    (∀ e ∈ out.notBehind verdicts, ¬ out.Reported verdicts e) ↔
      ∀ id ∈ failedIds verdicts,
        ∃ id' ∈ failedIds verdicts, out.owner id' = out.owner (id - 1) := by
  constructor
  · -- the ids in `temp.hst` count from one: `k + 1` is in front of an expression of `out.owner k`
    intro h id hid
    obtain ⟨k, x, rfl, hx, -⟩ := hchecked.numbered id hid
    have howner : out.owner k = some x.1 := by rw [Database.owner, hx, Option.map_some]
    have hnot : x.1 ∉ out.notBehind verdicts := fun hmem => h x.1 hmem ⟨k + 1, hid, howner⟩
    by_contra hnone
    apply hnot
    refine List.mem_filter.mpr ⟨mem_entries_of_owner howner, decide_eq_true fun id' hid' heq => ?_⟩
    exact hnone ⟨id', hid', heq.trans howner.symm⟩
  · intro h e he hreported
    obtain ⟨id, hid, howner⟩ := hreported
    obtain ⟨id', hid', heq⟩ := h id hid
    exact of_decide_eq_true (List.mem_filter.mp he).2 id' hid' (heq.trans howner)

/-! ## The command -/

/-- How the command ends on the rules `out` that the first filter has left in `dbOut`. -/
structure WorkingSetSpec {dbOut : List Text} (out : Database parseRule dbOut)
    (verdicts : List Verdict) (left : List Text) (error : Option Error) : Prop where
  ends : error = none ↔ HyperscanEnds out verdicts
  raised : error ≠ none → left = dbOut
  left : error = none → left = (out.notBehind verdicts).map fun e => e.line ++ ['\n']
  accepted : (∀ e ∈ out.notBehind verdicts, ¬ out.Reported verdicts e) ↔
    ∀ id ∈ failedIds verdicts, ∃ id' ∈ failedIds verdicts, out.owner id' = out.owner (id - 1)

/-- **The working set is what `rxpc` has taken without the rules behind failing expressions.**
Whatever `rxpc` reports in each call and `hscheck` of each file, `full_rxpc_filter` ends, with rules
of which every pattern was compiled and not reported; iterated it ends with the count 0, and nothing
at all was reported if that means an empty log. If a body of these rules is empty, or the last
expression fails, then the command raises, and they are what the output file has. Else it has those
that do not own an expression behind a failing one, and Hyperscan has taken all of them if and only
if the rule of each failing expression is also left out. -/
theorem genWorkingSet_leaves {hscheck : Text → Completed}
    (hrxpc : RxpcDocumented parseRule rxpc maxRules dbIn) (db : Database parseRule dbIn)
    (hhscheck : ∀ file (out : Database parseRule file), out.entries.Sublist db.entries →
      ∃ verdicts, Checked hscheck out verdicts)
    (iterative : Bool) {fuel : ℕ} (hfuel : db.entries.length < fuel) :
    ∃ s, ∃ out : Database parseRule s.dbOut, ∃ verdicts left error,
      FullFiltered rxpc iterative db s out ∧ Checked hscheck out verdicts ∧
        genWorkingSet parseRule rxpc maxRules hscheck iterative fuel dbIn = .ok (left, error) ∧
          WorkingSetSpec out verdicts left error := by
  obtain ⟨s, out, hs, hout⟩ := fullRxpcFilter_leaves hrxpc db hfuel iterative
  obtain ⟨verdicts, hchecked⟩ := hhscheck s.dbOut out hout.entries
  have haccepted := notBehind_accepted_iff hchecked
  unfold genWorkingSet
  rw [hs]
  cases hfilter : filterHyperscan parseRule hscheck s.dbOut with
  | error e =>
    refine ⟨s, out, verdicts, s.dbOut, some e, hout, hchecked, ?_, ?_, fun _ => rfl, ?_, haccepted⟩
    · show Except.ok _ = _
      rw [hfilter]
    · refine iff_of_false (Option.some_ne_none e) fun h => ?_
      rw [filterHyperscan_of_ends hchecked h] at hfilter
      cases hfilter
    · exact fun h => absurd h (Option.some_ne_none e)
  | ok lines =>
    have hends := ends_of_filterHyperscan hchecked hfilter
    refine ⟨s, out, verdicts, lines, none, hout, hchecked, ?_, iff_of_true rfl hends,
      fun h => absurd rfl h, fun _ => ?_, haccepted⟩
    · show Except.ok _ = _
      rw [hfilter]
    · rw [filterHyperscan_of_ends hchecked hends] at hfilter
      exact (Except.ok.inj hfilter).symm

/-- The verdicts of a `hscheck` that does not take the expression `a`, if it is the first. -/
def firstVerdicts (text : Text) : List Verdict :=
  if "1:/a/\n".toList.isPrefixOf text then
    [.fail failCompile 1 ⟨"/a/".toList, by decide +kernel⟩
      ⟨"not supported".toList, by decide +kernel⟩, .summary ⟨"1 failed.".toList, by decide +kernel⟩]
  else [.summary ⟨"0 failed.".toList, by decide +kernel⟩]

def hscheckFirst (text : Text) : Completed := ⟨0, report (firstVerdicts text)⟩

theorem checked_hscheckFirst {file : List Text}
    {out : Database (fun l => some (lineRule l)) file}
    (hout : out.entries.Sublist lineRules.entries) :
    ∃ verdicts, Checked hscheckFirst out verdicts := by
  obtain ⟨n, hnumber, hpatterns, -⟩ := numberRules_database out
  have hexport := toHyperscan_of_numberRules hnumber
  rw [hpatterns] at hexport
  cases hexpressions : out.expressions with
  | nil =>
    -- nothing is checked
    rw [hexpressions] at hexport
    have hnone : failedIds (firstVerdicts []) = [] := by decide
    refine ⟨firstVerdicts [], fun lines id2sid h => ?_, fun id hid => ?_⟩
    · obtain rfl := (Prod.mk.inj (Except.ok.inj (hexport.symm.trans h))).1
      rfl
    · rw [hnone] at hid
      exact absurd hid List.not_mem_nil
  | cons x xs =>
    have hx : x ∈ out.expressions := hexpressions ▸ List.mem_cons_self
    obtain ⟨e, he, hmap⟩ := List.mem_flatMap.mp hx
    obtain ⟨text, htext, rfl⟩ := List.mem_map.mp hmap
    have hbodies : ∀ e ∈ lineRules.entries, ∀ text ∈ e.rule.expressions,
        (searchBody text).isSome := by decide +kernel
    have hbody := hbodies e (hout.subset he) text htext
    cases hrun : exportLines true 0 (out.expressions.map Prod.snd) with
    | error err =>
      rw [hrun] at hexport
      refine ⟨[], fun lines id2sid h => ?_, fun id hid => absurd hid List.not_mem_nil⟩
      cases hexport.symm.trans h
    | ok exported =>
      rw [hrun] at hexport
      refine ⟨firstVerdicts (tempHst exported), fun lines id2sid h => ?_, fun id hid => ?_⟩
      · rw [(Prod.mk.inj (Except.ok.inj (hexport.symm.trans h))).1]
        rfl
      · unfold firstVerdicts at hid
        split at hid
        · exact ⟨0, (e, text), List.mem_singleton.mp hid, by rw [hexpressions]; rfl, hbody⟩
        · exact absurd hid List.not_mem_nil

/-- `rxpc` does not take `b`, and Hyperscan does not take `a`: the file has `a` only, and `c`, which
owns the expression behind the failing one, is left out. -/
theorem genWorkingSet_leaves_lineRules :
    ∃ s, ∃ out : Database (fun l => some (lineRule l)) s.dbOut, ∃ verdicts left error,
      FullFiltered (fun _ => rejectsB) true lineRules s out ∧ Checked hscheckFirst out verdicts ∧
        genWorkingSet (fun l => some (lineRule l)) (fun _ => rejectsB) 0xFFFFFFFF hscheckFirst
          true 4
            ["a\n".toList, "b\n".toList, "c\n".toList] = .ok (left, error) ∧
          WorkingSetSpec out verdicts left error :=
  genWorkingSet_leaves documented_rejectsB lineRules
    (fun _ _ hout => checked_hscheckFirst hout) true (show 3 < 4 by decide)

example : genWorkingSet (fun l => some (lineRule l)) (fun _ => rejectsB) 0xFFFFFFFF
    hscheckFirst true 4
    ["a\n".toList, "b\n".toList, "c\n".toList] = .ok (["a\n".toList], none) := rfl

end Data
end PamoRxpBench
