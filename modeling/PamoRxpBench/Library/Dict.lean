import Mathlib.Data.List.Basic
import Mathlib.Data.List.Nodup
import Mathlib.Data.Finset.Dedup
import Mathlib.Algebra.BigOperators.Group.Finset.Basic
import Mathlib.Algebra.Order.Ring.Int

/-!
# Dictionaries

A dictionary that keeps its keys in the order in which they were added, and the loop that fills
one: `accumulate` goes through a list, and adds each item to the value of its key.

* `get?_set`: what a look-up finds after an assignment;
* `get?_accumulate`: the value of a key is made from the items with that key, in their order;
* `entries_eq_map_keys`: a dictionary is its keys with their values;
* `sum_counter`: a sum over a `Counter` is the sum over what it counted.
-/

namespace PamoRxpBench

/-- The entries of a dictionary, in the order in which their keys were added. -/
structure Dict (κ ν : Type) where
  entries : List (κ × ν)
  nodup : (entries.map Prod.fst).Nodup

namespace Dict

variable {κ ν α : Type}

/-- The dictionary without entries. -/
def empty : Dict κ ν := ⟨[], List.nodup_nil⟩

def keys (d : Dict κ ν) : List κ := d.entries.map Prod.fst

def values (d : Dict κ ν) : List ν := d.entries.map Prod.snd

theorem nodup_keys (d : Dict κ ν) : d.keys.Nodup := d.nodup

variable [DecidableEq κ]

/-! ## Look-up and assignment -/

/-- The value of the first entry with the key. -/
def find (k : κ) : List (κ × ν) → Option ν
  | [] => none
  | e :: es => if e.1 = k then some e.2 else find k es

/-- `d.get(k)`. -/
def get? (d : Dict κ ν) (k : κ) : Option ν := find k d.entries

/-- The value of a key is replaced; a new key goes to the end. -/
def setEntry (k : κ) (v : ν) : List (κ × ν) → List (κ × ν)
  | [] => [(k, v)]
  | e :: es => if e.1 = k then (k, v) :: es else e :: setEntry k v es

/-- A new key goes to the end, and one that is there keeps its place. -/
theorem keys_setEntry (k : κ) (v : ν) (es : List (κ × ν)) :
    (setEntry k v es).map Prod.fst =
      if k ∈ es.map Prod.fst then es.map Prod.fst else es.map Prod.fst ++ [k] := by
  induction es with
  | nil => rfl
  | cons e es ih =>
    rw [setEntry]
    by_cases he : e.1 = k
    · rw [if_pos he, if_pos (by rw [List.map_cons, he]; exact List.mem_cons_self), List.map_cons,
        List.map_cons, he]
    · rw [if_neg he, List.map_cons, ih, List.map_cons]
      by_cases hk : k ∈ es.map Prod.fst
      · rw [if_pos hk, if_pos (List.mem_cons_of_mem _ hk)]
      · have hne : k ∉ e.1 :: es.map Prod.fst :=
          List.not_mem_cons_of_ne_of_not_mem (Ne.symm he) hk
        rw [if_neg hk, if_neg hne, List.cons_append]

theorem nodup_setEntry {k : κ} {v : ν} {es : List (κ × ν)} (h : (es.map Prod.fst).Nodup) :
    ((setEntry k v es).map Prod.fst).Nodup := by
  rw [keys_setEntry]
  by_cases hk : k ∈ es.map Prod.fst
  · rwa [if_pos hk]
  · rw [if_neg hk]
    exact List.nodup_append.mpr ⟨h, List.nodup_singleton k, fun a ha b hb heq =>
      hk (List.mem_singleton.mp hb ▸ heq ▸ ha)⟩

/-- `d[k] = v`. -/
def set (d : Dict κ ν) (k : κ) (v : ν) : Dict κ ν :=
  ⟨setEntry k v d.entries, nodup_setEntry d.nodup⟩

/-- An assignment changes one entry. -/
theorem find_setEntry (k k' : κ) (v : ν) (es : List (κ × ν)) :
    find k' (setEntry k v es) = if k = k' then some v else find k' es := by
  induction es with
  | nil => rfl
  | cons e es ih =>
    rw [setEntry]
    by_cases he : e.1 = k
    · rw [if_pos he, find, find, he]
      by_cases hk : k = k'
      · rw [if_pos hk, if_pos hk]
      · rw [if_neg hk, if_neg hk, if_neg hk]
    · rw [if_neg he, find, ih, find]
      by_cases hk : k = k'
      · rw [if_pos hk, if_neg (hk ▸ he), if_pos hk]
      · rw [if_neg hk, if_neg hk]

theorem get?_set (d : Dict κ ν) (k k' : κ) (v : ν) :
    (d.set k v).get? k' = if k = k' then some v else d.get? k' := find_setEntry k k' v d.entries

theorem mem_keys_set {d : Dict κ ν} {k k' : κ} {v : ν} :
    k' ∈ (d.set k v).keys ↔ k = k' ∨ k' ∈ d.keys := by
  show k' ∈ (setEntry k v d.entries).map Prod.fst ↔ _ ∨ k' ∈ d.entries.map Prod.fst
  rw [keys_setEntry]
  by_cases hk : k ∈ d.entries.map Prod.fst
  · rw [if_pos hk]
    constructor
    · exact Or.inr
    · rintro (rfl | h)
      · exact hk
      · exact h
  · rw [if_neg hk, List.mem_append, List.mem_singleton, or_comm, eq_comm]

/-- A new key goes to the end. -/
theorem entries_set_of_not_mem {d : Dict κ ν} {k : κ} (h : k ∉ d.keys) (v : ν) :
    (d.set k v).entries = d.entries ++ [(k, v)] := by
  have hentries : ∀ es : List (κ × ν), k ∉ es.map Prod.fst → setEntry k v es = es ++ [(k, v)] := by
    intro es
    induction es with
    | nil => exact fun _ => rfl
    | cons e es ih =>
      intro hes
      rw [List.map_cons] at hes
      rw [setEntry, if_neg (Ne.symm (List.ne_of_not_mem_cons hes)),
        ih (List.not_mem_of_not_mem_cons hes), List.cons_append]
  exact hentries d.entries h

theorem find_of_mem {e : κ × ν} {es : List (κ × ν)} (hnodup : (es.map Prod.fst).Nodup)
    (h : e ∈ es) : find e.1 es = some e.2 := by
  induction es with
  | nil => exact absurd h List.not_mem_nil
  | cons e' es ih =>
    have hhead : e'.1 ∉ es.map Prod.fst := (List.nodup_cons.mp hnodup).1
    rw [find]
    rcases List.mem_cons.mp h with rfl | h
    · rw [if_pos rfl]
    · have hne : e'.1 ≠ e.1 := fun heq => hhead (heq ▸ List.mem_map_of_mem h)
      rw [if_neg hne, ih (List.nodup_cons.mp hnodup).2 h]

/-- A dictionary is its keys with their values. -/
theorem entries_eq_map_keys (d : Dict κ ν) (init : ν) :
    d.entries = d.keys.map fun k => (k, (d.get? k).getD init) := by
  rw [keys, List.map_map]
  conv_lhs => rw [← List.map_id d.entries]
  apply List.map_congr_left
  intro e he
  show e = (e.1, (find e.1 d.entries).getD init)
  rw [find_of_mem d.nodup he]
  rfl

theorem mem_of_find {k : κ} {v : ν} {es : List (κ × ν)} (h : find k es = some v) :
    k ∈ es.map Prod.fst := by
  induction es with
  | nil => cases h
  | cons e es ih =>
    rw [find] at h
    by_cases he : e.1 = k
    · exact he ▸ List.mem_cons_self
    · rw [if_neg he] at h
      exact List.mem_cons_of_mem _ (ih h)

theorem exists_get?_of_mem {d : Dict κ ν} {k : κ} (h : k ∈ d.keys) : ∃ v, d.get? k = some v := by
  obtain ⟨e, he, rfl⟩ := List.mem_map.mp h
  exact ⟨e.2, find_of_mem d.nodup he⟩

/-- Dictionaries with the same keys and values. -/
theorem ext_of_get? {d d' : Dict κ ν} (hkeys : d.keys = d'.keys)
    (h : ∀ k ∈ d.keys, d.get? k = d'.get? k) : d = d' := by
  have hentries : d.entries = d'.entries := by
    cases hempty : d.entries with
    | nil =>
      have hnil : d'.keys = [] := by
        rw [← hkeys, keys, hempty]
        rfl
      exact (List.map_eq_nil_iff.mp hnil).symm
    | cons e es =>
      rw [← hempty, entries_eq_map_keys d e.2, entries_eq_map_keys d' e.2, ← hkeys]
      exact List.map_congr_left fun k hk => by rw [h k hk]
  cases d
  cases d'
  cases hentries
  rfl

/-- The same keys with other values. -/
def mapValues {ν' : Type} (f : ν → ν') (d : Dict κ ν) : Dict κ ν' where
  entries := d.entries.map fun e => (e.1, f e.2)
  nodup := by
    rw [List.map_map]
    exact d.nodup

omit [DecidableEq κ] in
theorem keys_mapValues {ν' : Type} (f : ν → ν') (d : Dict κ ν) : (d.mapValues f).keys = d.keys := by
  show (d.entries.map _).map Prod.fst = d.entries.map Prod.fst
  rw [List.map_map]
  rfl

/-- The values are mapped each under its key. -/
theorem get?_mapValues {ν' : Type} (f : ν → ν') (d : Dict κ ν) (k : κ) :
    (d.mapValues f).get? k = (d.get? k).map f := by
  show find k (d.entries.map _) = (find k d.entries).map f
  induction d.entries with
  | nil => rfl
  | cons e es ih =>
    rw [List.map_cons, find, find]
    by_cases he : e.1 = k
    · rw [if_pos he, if_pos he]
      rfl
    · rw [if_neg he, if_neg he, ih]

/-! ## Filling a dictionary -/

/-- `d[k] = f(d[k])`, for a dictionary with the default value `init`. -/
def modify (d : Dict κ ν) (k : κ) (init : ν) (f : ν → ν) : Dict κ ν :=
  d.set k (f ((d.get? k).getD init))

/-- The loop that adds every item to the value of its key. -/
def accumulate (key : α → κ) (init : ν) (step : ν → α → ν) (items : List α) : Dict κ ν :=
  items.foldl (fun d a => d.modify (key a) init fun v => step v a) empty

section Accumulate

variable (key : α → κ) (init : ν) (step : ν → α → ν)

/-- The keys of an accumulation are the old ones and those of the items. -/
theorem mem_keys_foldl (items : List α) (d : Dict κ ν) (k : κ) :
    k ∈ (items.foldl (fun d a => d.modify (key a) init fun v => step v a) d).keys ↔
      k ∈ d.keys ∨ k ∈ items.map key := by
  induction items generalizing d with
  | nil => simp
  | cons a items ih =>
    rw [List.foldl_cons, ih, modify, mem_keys_set, List.map_cons, List.mem_cons, or_assoc,
      or_left_comm, eq_comm]

/-- What is accumulated under a key comes from the items with this key, in their order. -/
theorem get?_foldl (items : List α) (d : Dict κ ν) (k : κ) :
    ((items.foldl (fun d a => d.modify (key a) init fun v => step v a) d).get? k).getD init =
      (items.filter fun a => key a = k).foldl step ((d.get? k).getD init) := by
  induction items generalizing d with
  | nil => rfl
  | cons a items ih =>
    rw [List.foldl_cons, ih, modify, get?_set, List.filter_cons]
    by_cases ha : key a = k
    · rw [if_pos ha, if_pos (decide_eq_true ha), List.foldl_cons, ha]
      rfl
    · rw [if_neg ha, if_neg (by simpa using ha)]

/-- The keys are those of the items. -/
theorem mem_keys_accumulate {items : List α} {k : κ} :
    k ∈ (accumulate key init step items).keys ↔ k ∈ items.map key := by
  rw [accumulate, mem_keys_foldl]
  exact or_iff_right List.not_mem_nil

/-- The value of a key is made from the items with that key. -/
theorem get?_accumulate (items : List α) (k : κ) :
    ((accumulate key init step items).get? k).getD init =
      (items.filter fun a => key a = k).foldl step init := by
  rw [accumulate, get?_foldl]
  rfl

/-- The dictionary after the loop: the keys of the items, each with the items that have it. -/
theorem entries_accumulate (items : List α) :
    (accumulate key init step items).entries =
      (accumulate key init step items).keys.map fun k =>
        (k, (items.filter fun a => key a = k).foldl step init) := by
  conv_lhs => rw [entries_eq_map_keys _ init]
  simp only [get?_accumulate]

end Accumulate

/-! ## Counting -/

/-- `Counter(l)`. -/
def counter (l : List κ) : Dict κ ℕ := accumulate id 0 (fun n _ => n + 1) l

/-- A counter has each element with how often it is there. -/
theorem entries_counter (l : List κ) :
    (counter l).entries = (counter l).keys.map fun k => (k, l.count k) := by
  have hfold : ∀ (items : List κ) (n : ℕ), items.foldl (fun n _ => n + 1) n = n + items.length := by
    intro items
    induction items with
    | nil => exact fun n => rfl
    | cons a items ih =>
      intro n
      rw [List.foldl_cons, ih, List.length_cons]
      omega
  rw [counter, entries_accumulate]
  apply List.map_congr_left
  intro k _
  rw [hfold, Nat.zero_add, List.count, List.countP_eq_length_filter]
  rfl

/-- A sum over the entries is a sum over what was counted. -/
theorem sum_counter (l : List κ) (f : κ → ℕ) :
    ((counter l).entries.map fun e => e.2 * f e.1).sum = (l.map f).sum := by
  have hkeys : (counter l).keys.toFinset = l.toFinset := by
    ext k
    rw [List.mem_toFinset, List.mem_toFinset, counter, mem_keys_accumulate, List.map_id]
  rw [Finset.sum_list_map_count l f, ← hkeys, List.sum_toFinset _ (nodup_keys _), entries_counter,
    List.map_map]
  rfl

end Dict
end PamoRxpBench
