import PamoRxpBench.Autotest.DataManagerTheorems

/-!
# Entries that `add_entry` rejects

`add_entry` registers the columns of an entry before it decides about it, although the decision
is the one that `validate_entry` takes without registering anything (`addEntry_fst`). So a
rejected entry leaves its columns behind, and later entries are rejected for lacking them.
-/

namespace PamoRxpBench
namespace Autotest

/-- The arguments of one call of `add_entry`. -/
structure Call where
  entry : DataEntry
  currentParameters : Option ParamSet
  force : Bool
  doUpdateCols : Bool

namespace DataManager

def addCall (data : DataManager) (c : Call) : Bool × DataManager :=
  data.addEntry c.entry c.currentParameters c.force c.doUpdateCols

/-- The table after a sequence of calls. -/
def addCalls (data : DataManager) (calls : List Call) : DataManager :=
  calls.foldl (fun data c => (data.addCall c).2) data

variable {data : DataManager}

theorem addCalls_cons (c : Call) (calls : List Call) :
    data.addCalls (c :: calls) = (data.addCall c).2.addCalls calls := rfl

/-! ## The decision -/

theorem validateEntry_iff {entry : DataEntry} :
    data.validateEntry entry = true ↔ (∀ c ∈ data.columns, c ∈ entry) ∧
      ∀ k v, entry.lookup k = some v → v.first ≠ .str data.invalidToken := by
  unfold validateEntry
  rw [Bool.not_eq_true', ← Bool.not_eq_true, hasInvalid_fillInvalid_iff, not_or]
  push Not
  rfl

/-- Registering the columns first makes no difference to the decision: the entry has its own. -/
theorem addCall_fst (c : Call) :
    (data.addCall c).1 = (c.force || data.validateEntry c.entry) := by
  have hcols : ∀ cols : List String, (∀ k, k ∈ cols ↔ k ∈ data.columns ∨
      c.doUpdateCols = true ∧ k ∈ c.entry) →
      hasInvalid (fillInvalid c.entry cols data.invalidToken) data.invalidToken
        = hasInvalid (fillInvalid c.entry data.columns data.invalidToken) data.invalidToken := by
    intro cols hcols
    rw [Bool.eq_iff_iff, hasInvalid_fillInvalid_iff, hasInvalid_fillInvalid_iff]
    apply or_congr_left
    constructor
    · intro ⟨k, hk, hne⟩
      exact ⟨k, ((hcols k).mp hk).resolve_right fun h => hne h.2, hne⟩
    · intro ⟨k, hk, hne⟩
      exact ⟨k, (hcols k).mpr (Or.inl hk), hne⟩
  have hupd := hcols (if c.doUpdateCols then updateCols c.entry data.columns else data.columns)
    (by
      intro k
      cases c.doUpdateCols with
      | false => simp
      | true => simp [mem_updateCols])
  unfold addCall addEntry validateEntry
  simp only [hupd]
  cases c.force <;>
    cases hasInvalid (fillInvalid c.entry data.columns data.invalidToken) data.invalidToken <;> rfl

/-- The decision depends on the registered columns as a set, and on the token. -/
theorem addCall_fst_congr {data' : DataManager} (htok : data.invalidToken = data'.invalidToken)
    (hcols : ∀ k, k ∈ data.columns ↔ k ∈ data'.columns) (c : Call) :
    (data.addCall c).1 = (data'.addCall c).1 := by
  rw [addCall_fst, addCall_fst]
  congr 1
  rw [Bool.eq_iff_iff, validateEntry_iff, validateEntry_iff, htok]
  simp only [hcols]

/-! ## The state after a call -/

theorem invalidToken_addCall (c : Call) :
    (data.addCall c).2.invalidToken = data.invalidToken := by
  simp only [addCall, addEntry]
  split_ifs <;> rfl

theorem mem_columns_addCall (c : Call) (k : String) :
    k ∈ (data.addCall c).2.columns ↔ k ∈ data.columns ∨ c.doUpdateCols = true ∧ k ∈ c.entry := by
  unfold addCall
  rw [addEntry_columns]
  cases c.doUpdateCols with
  | false => simp
  | true => simp [mem_updateCols]

/-- A rejected call adds no row. -/
theorem entries_addCall_of_rejected {c : Call} (h : (data.addCall c).1 = false) :
    (data.addCall c).2.entries = data.entries ∧ (data.addCall c).2.rowIdx = data.rowIdx := by
  revert h
  simp only [addCall, addEntry]
  -- of the two returns only the first returns `False`
  split_ifs <;> intro h
  all_goals first | exact ⟨rfl, rfl⟩ | cases h

/-- The columns, the entries and the row index are those of `data'`. The columns are a set. -/
structure SameTable (data data' : DataManager) : Prop where
  columns : ∀ k, k ∈ data.columns ↔ k ∈ data'.columns
  entries : data.entries = data'.entries
  rowIdx : data.rowIdx = data'.rowIdx

/-- The call registers no column, or the entry is added. -/
def RegistersOnlyAdded (data : DataManager) (c : Call) : Prop :=
  c.force = true ∨ data.validateEntry c.entry = true ∨ c.doUpdateCols = false ∨
    ∀ k ∈ c.entry, k ∈ data.columns

/-- A rejected call leaves the table as it is exactly if it registers no column. -/
theorem sameTable_of_rejected_iff (c : Call) :
    ((data.addCall c).1 = false → SameTable data (data.addCall c).2) ↔
      RegistersOnlyAdded data c := by
  unfold RegistersOnlyAdded
  constructor
  · intro hsame
    by_cases hadd : (data.addCall c).1 = true
    · rw [addCall_fst, Bool.or_eq_true] at hadd
      exact hadd.elim Or.inl fun h => Or.inr (Or.inl h)
    · have htable := hsame (Bool.not_eq_true _ ▸ hadd)
      cases hupd : c.doUpdateCols with
      | false => exact Or.inr (Or.inr (Or.inl rfl))
      | true =>
        refine Or.inr (Or.inr (Or.inr fun k hk => ?_))
        exact (htable.columns k).mpr ((mem_columns_addCall c k).mpr (Or.inr ⟨hupd, hk⟩))
  · intro hreg hrej
    have hrows := entries_addCall_of_rejected hrej
    refine ⟨fun k => ?_, hrows.1.symm, hrows.2.symm⟩
    rw [mem_columns_addCall]
    rw [addCall_fst, Bool.or_eq_false_iff] at hrej
    constructor
    · exact Or.inl
    · intro hk
      refine hk.elim id fun h => ?_
      match hreg with
      | .inl hforce => exact absurd hforce (by rw [hrej.1]; decide)
      | .inr (.inl hvalid) => exact absurd hvalid (by rw [hrej.2]; decide)
      | .inr (.inr (.inl hupd)) => exact absurd h.1 (by rw [hupd]; decide)
      | .inr (.inr (.inr hkeys)) => exact hkeys k h.2

/-! ## Sequences of calls -/

/-- The second sequence is the first without some of the calls that are rejected there. -/
inductive DropsRejected : DataManager → List Call → List Call → Prop
  | nil (data : DataManager) : DropsRejected data [] []
  | keep {data : DataManager} {c : Call} {calls rest : List Call}
      (h : DropsRejected (data.addCall c).2 calls rest) :
      DropsRejected data (c :: calls) (c :: rest)
  | drop {data : DataManager} {c : Call} {calls rest : List Call}
      (hrej : (data.addCall c).1 = false) (h : DropsRejected (data.addCall c).2 calls rest) :
      DropsRejected data (c :: calls) rest

/-- Every rejected call leaves the table as it was, and no call is decided otherwise when some
of the calls rejected before it are left out. -/
def RejectedUnseen (data : DataManager) (calls : List Call) : Prop :=
  (∀ before c rest, calls = before ++ c :: rest →
    ((data.addCalls before).addCall c).1 = false →
    SameTable (data.addCalls before) ((data.addCalls before).addCall c).2) ∧
  ∀ before c rest, calls = before ++ c :: rest → ∀ fewer, DropsRejected data before fewer →
    ((data.addCalls fewer).addCall c).1 = ((data.addCalls before).addCall c).1

/-- Tables that decide alike decide alike after the same calls, and after calls that are
rejected without a trace. -/
theorem columns_addCalls_of_dropsRejected {data data' : DataManager} {calls fewer : List Call}
    (hdrop : DropsRejected data calls fewer) (htok : data.invalidToken = data'.invalidToken)
    (hcols : ∀ k, k ∈ data.columns ↔ k ∈ data'.columns)
    (hreg : ∀ before c rest, calls = before ++ c :: rest →
      RegistersOnlyAdded (data.addCalls before) c) :
    (data.addCalls calls).invalidToken = (data'.addCalls fewer).invalidToken ∧
      ∀ k, k ∈ (data.addCalls calls).columns ↔ k ∈ (data'.addCalls fewer).columns := by
  induction hdrop generalizing data' with
  | nil data => exact ⟨htok, hcols⟩
  | @keep data c calls rest _ ih =>
    rw [addCalls_cons, addCalls_cons]
    apply ih
    · rw [invalidToken_addCall, invalidToken_addCall, htok]
    · intro k
      rw [mem_columns_addCall, mem_columns_addCall, hcols]
    · intro before a after heq
      exact hreg (c :: before) a after (by rw [heq]; rfl)
  | @drop data c calls rest hrej _ ih =>
    rw [addCalls_cons]
    have hsame : SameTable data (data.addCall c).2 :=
      (sameTable_of_rejected_iff c).mpr (hreg [] c calls rfl) hrej
    apply ih
    · rw [invalidToken_addCall, htok]
    · intro k
      rw [← hsame.columns, hcols]
    · intro before a after heq
      exact hreg (c :: before) a after (by rw [heq]; rfl)

/-- **When rejected entries stay unseen**: each call adds its entry or registers no column. -/
theorem rejectedUnseen_iff (data : DataManager) (calls : List Call) :
    RejectedUnseen data calls ↔ ∀ before c rest, calls = before ++ c :: rest →
      RegistersOnlyAdded (data.addCalls before) c := by
  constructor
  · intro hunseen before c rest heq
    exact (sameTable_of_rejected_iff c).mp (hunseen.1 before c rest heq)
  · intro hreg
    refine ⟨fun before c rest heq => ?_, fun before c rest heq fewer hdrop => ?_⟩
    · exact (sameTable_of_rejected_iff c).mpr (hreg before c rest heq)
    · -- the calls before `c` meet the condition as well
      have hbefore := columns_addCalls_of_dropsRejected hdrop rfl (fun k => Iff.rfl)
        (fun pre a post h => hreg pre a (post ++ c :: rest) (by rw [heq, h]; simp))
      exact (addCall_fst_congr hbefore.1 hbefore.2 c).symm

/-- A result line without a value, then a good one of another column. -/
theorem not_rejectedUnseen_otherColumn :
    (let bad : Call := ⟨(∅ : DataEntry).insert "x" (.single (.str "NaN")), none, false, true⟩
     let good : Call := ⟨(∅ : DataEntry).insert "y" (.single (.str "1")), none, false, true⟩
     (init.addCall bad).1 = false ∧ (init.addCall bad).2.columns = ["x"] ∧
     ((init.addCall bad).2.addCall good).1 = false ∧ (init.addCall good).1 = true ∧
     ¬ RejectedUnseen init [bad, good]) := by
  refine ⟨by decide, by decide, by decide, by decide, fun hunseen => ?_⟩
  have hsame := hunseen.1 [] _ _ rfl (by decide)
  exact absurd ((hsame.columns "x").mpr (by decide)) (by decide)

end DataManager

end Autotest
end PamoRxpBench
