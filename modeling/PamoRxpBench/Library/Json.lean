import Mathlib.Data.Rat.Defs
import Mathlib.Data.List.Nodup
import PamoRxpBench.Library.Text

/-!
# JSON documents

Documents as `json.load` returns them: the keys of an object are distinct
(`Json.DistinctKeys`). A path goes down from the root by the keys of objects and by the decimal
places in lists, and leads to at most one node (`Json.nodeAt`). Below a node are its `children`,
each with the step that leads to it.

* `children_induction`: what holds of a node when it holds of its children;
* `mem_children_iff`: with distinct keys a step is a child.
-/

namespace PamoRxpBench

/-- A JSON value. -/
inductive Json
  | null
  | bool (b : Bool)
  | num (q : ℚ)
  | str (s : Text)
  | arr (items : List Json)
  | obj (fields : List (Text × Json))

namespace Json

/-- The value of a key of an object. -/
def field (key : Text) : List (Text × Json) → Option Json
  | [] => none
  | f :: fields => if f.1 = key then some f.2 else field key fields

/-- The nodes below a node, with the steps that lead to them. -/
def children : Json → List (Text × Json)
  | .obj fields => fields
  | .arr items => items.zipIdx.map fun x => (Text.decimal x.2, x.1)
  | _ => []

/-- One step of a path. -/
def child (step : Text) (j : Json) : Option Json := field step j.children

/-- The node to which a path leads. -/
def nodeAt : List Text → Json → Option Json
  | [], j => some j
  | step :: path, j => (child step j).bind (nodeAt path)

/-- The keys of every object in a document are distinct. -/
inductive DistinctKeys : Json → Prop
  | null : DistinctKeys .null
  | bool (b : Bool) : DistinctKeys (.bool b)
  | num (q : ℚ) : DistinctKeys (.num q)
  | str (s : Text) : DistinctKeys (.str s)
  | arr {items : List Json} (h : ∀ item ∈ items, DistinctKeys item) : DistinctKeys (.arr items)
  | obj {fields : List (Text × Json)} (hkeys : (fields.map Prod.fst).Nodup)
      (h : ∀ f ∈ fields, DistinctKeys f.2) : DistinctKeys (.obj fields)

theorem sizeOf_child {j : Json} {c : Text × Json} (h : c ∈ j.children) :
    sizeOf c.2 < sizeOf j := by
  cases j with
  | arr items =>
    obtain ⟨x, hx, rfl⟩ := List.mem_map.mp h
    have := List.sizeOf_lt_of_mem (List.fst_mem_of_mem_zipIdx hx)
    rw [arr.sizeOf_spec]
    show sizeOf x.1 < _
    omega
  | obj fields =>
    have hfield := List.sizeOf_lt_of_mem (show c ∈ fields from h)
    have hpair : sizeOf c = 1 + sizeOf c.1 + sizeOf c.2 := Prod.mk.sizeOf_spec c.1 c.2
    rw [obj.sizeOf_spec]
    omega
  | null => exact absurd h List.not_mem_nil
  | bool b => exact absurd h List.not_mem_nil
  | num q => exact absurd h List.not_mem_nil
  | str s => exact absurd h List.not_mem_nil

/-- What holds of a node when it holds of the nodes below it holds of all nodes. -/
theorem children_induction {motive : Json → Prop}
    (h : ∀ j, (∀ c ∈ j.children, motive c.2) → motive j) (j : Json) : motive j := by
  induction hn : sizeOf j using Nat.strong_induction_on generalizing j with
  | _ n ih =>
    apply h
    intro c hc
    exact ih (sizeOf c.2) (hn ▸ sizeOf_child hc) c.2 rfl

/-! ## Distinct steps -/

theorem DistinctKeys.child {j : Json} (hj : DistinctKeys j) {c : Text × Json}
    (hc : c ∈ j.children) : DistinctKeys c.2 := by
  cases hj with
  | arr h =>
    obtain ⟨x, hx, rfl⟩ := List.mem_map.mp hc
    exact h x.1 (List.fst_mem_of_mem_zipIdx hx)
  | obj _ h => exact h c hc
  | null => exact absurd hc List.not_mem_nil
  | bool b => exact absurd hc List.not_mem_nil
  | num q => exact absurd hc List.not_mem_nil
  | str s => exact absurd hc List.not_mem_nil

/-- The steps to the children of a node are distinct. -/
theorem DistinctKeys.nodup {j : Json} (hj : DistinctKeys j) : (j.children.map Prod.fst).Nodup := by
  cases hj with
  | @arr items h =>
    have hsteps : (Json.arr items).children.map Prod.fst =
        (List.range' 0 items.length).map Text.decimal := by
      rw [children, List.map_map, ← List.zipIdx_map_snd, List.map_map]
      rfl
    rw [hsteps]
    exact List.Nodup.map (fun _ _ h => Text.decimal_injective h) List.nodup_range'
  | obj hkeys _ => exact hkeys
  | null => exact List.nodup_nil
  | bool b => exact List.nodup_nil
  | num q => exact List.nodup_nil
  | str s => exact List.nodup_nil

/-- Where no key is there twice, each field is found under its key. -/
theorem field_of_mem {key : Text} {j : Json} {fields : List (Text × Json)}
    (hnodup : (fields.map Prod.fst).Nodup) (h : (key, j) ∈ fields) : field key fields = some j := by
  induction fields with
  | nil => exact absurd h List.not_mem_nil
  | cons f fields ih =>
    obtain ⟨hhead, htail⟩ := List.nodup_cons.mp hnodup
    rw [field]
    rcases List.mem_cons.mp h with rfl | h
    · rw [if_pos rfl]
    · have hne : f.1 ≠ key := fun heq => hhead (heq ▸ List.mem_map_of_mem h)
      rw [if_neg hne, ih htail h]

theorem mem_of_field {key : Text} {j : Json} {fields : List (Text × Json)}
    (h : field key fields = some j) : (key, j) ∈ fields := by
  induction fields with
  | nil => exact nomatch h
  | cons f fields ih =>
    rw [field] at h
    by_cases hf : f.1 = key
    · rw [if_pos hf] at h
      rw [← hf, ← Option.some.inj h]
      exact List.mem_cons_self
    · rw [if_neg hf] at h
      exact List.mem_cons_of_mem _ (ih h)

/-- With distinct keys a step leads to a child. -/
theorem mem_children_iff {j : Json} (hj : DistinctKeys j) {c : Text × Json} :
    c ∈ j.children ↔ child c.1 j = some c.2 :=
  ⟨field_of_mem hj.nodup, mem_of_field⟩

/-- A path that is not empty leads through a child. -/
theorem nodeAt_cons_iff {j : Json} (hj : DistinctKeys j) {step : Text} {path : List Text}
    {node : Json} :
    nodeAt (step :: path) j = some node ↔
      ∃ c ∈ j.children, c.1 = step ∧ nodeAt path c.2 = some node := by
  rw [nodeAt, Option.bind_eq_some_iff]
  constructor
  · rintro ⟨below, hbelow, hnode⟩
    exact ⟨(step, below), (mem_children_iff hj).mpr hbelow, rfl, hnode⟩
  · rintro ⟨c, hc, rfl, hnode⟩
    exact ⟨c.2, (mem_children_iff hj).mp hc, hnode⟩

end Json
end PamoRxpBench
