import PamoRxpBench.Autotest.ParameterHandler
import Mathlib.Algebra.BigOperators.ModEq
import Mathlib.Logic.Equiv.List
import Mathlib.Tactic.Ring

/-!
# The hash of an experiment

`main` resumes a saved state when its hash is that of the experiment. The hash is a sum of the
hashes of the names and of the value lists modulo a prime: which name goes with which list, the
order of the parameters and the number of repetitions are not in it (`hash_eq_iff_counts`). So
the test separates two experiments under every hash function only if they are the same
(`resumesSame_iff`).
-/

namespace PamoRxpBench
namespace Autotest

/-! ## Sums that forget the order -/

section Counts

variable {α : Type} [DecidableEq α]

/-- How often `x` occurs. -/
def occurrences (x : α) (l : List α) : ℤ := l.countP (· = x)

/-- Sums over lists with the same counts agree. -/
theorem sum_map_modEq {p : ℤ} {l l' : List α}
    (hcount : ∀ x, occurrences x l ≡ occurrences x l' [ZMOD p]) (f : α → ℤ) :
    (l.map f).sum ≡ (l'.map f).sum [ZMOD p] := by
  have hover : ∀ m : List α, m.toFinset ⊆ l.toFinset ∪ l'.toFinset →
      (m.map f).sum = ∑ x ∈ l.toFinset ∪ l'.toFinset, occurrences x m * f x := by
    intro m hm
    rw [Finset.sum_list_map_count]
    simp only [nsmul_eq_mul]
    apply Finset.sum_subset hm
    intro x _ hx
    rw [List.count_eq_zero_of_not_mem (fun hmem => hx (List.mem_toFinset.mpr hmem))]
    simp
  rw [hover l Finset.subset_union_left, hover l' Finset.subset_union_right]
  exact Int.ModEq.sum fun x _ => (hcount x).mul_right (f x)

/-- The sum of a function that is a multiple of `p` but for one value, where it is one more. -/
theorem sum_map_probe (p : ℤ) (g : α → ℤ) (x : α) (l : List α) :
    (l.map fun y => p * g y + if y = x then 1 else 0).sum ≡ occurrences x l [ZMOD p] := by
  induction l with
  | nil => rfl
  | cons y l ih =>
    have hcons : occurrences x (y :: l) = occurrences x l + if y = x then 1 else 0 := by
      rw [occurrences, List.countP_cons, occurrences]
      by_cases hyx : y = x
      · simp [hyx]
      · simp [hyx]
    have hmul : p * g y ≡ 0 [ZMOD p] := Int.modEq_zero_iff_dvd.mpr (dvd_mul_right _ _)
    have hhead := hmul.add_right (if y = x then 1 else 0)
    rw [zero_add] at hhead
    rw [List.map_cons, List.sum_cons, hcons, add_comm (occurrences x l)]
    exact hhead.add ih

/-- A function that is injective, and counts one value. -/
theorem injective_probe {p : ℤ} (hp : 1 < p) {g : α → ℤ} (hg : Function.Injective g) (x : α) :
    Function.Injective fun y => p * g y + if y = x then 1 else 0 := by
  -- the quotient by `p` gives `g` back
  have hdiv : ∀ y, (p * g y + if y = x then 1 else 0) / p = g y := by
    intro y
    rw [Int.mul_add_ediv_left _ _ (by omega)]
    have hzero : (if y = x then 1 else 0) / p = 0 := by
      apply Int.ediv_eq_zero_of_lt
      · split <;> omega
      · split <;> omega
    omega
  intro y z hyz
  apply hg
  rw [← hdiv y, ← hdiv z]
  exact congrArg (· / p) hyz

omit [DecidableEq α] in
theorem injective_mul {p : ℤ} (hp : p ≠ 0) {g : α → ℤ} (hg : Function.Injective g) :
    Function.Injective fun y => p * g y :=
  fun _ _ hyz => hg (mul_left_cancel₀ hp hyz)

end Counts

/-! ## Injective hash functions -/

theorem exists_injective_name : ∃ name : String → ℤ, Function.Injective name := by
  refine ⟨fun s => Encodable.encode (s.toList.map Char.toNat), fun s t hst => ?_⟩
  have hlist := Encodable.encode_injective (Int.ofNat.inj hst)
  exact String.toList_inj.mp (List.map_injective_iff.mpr (fun _ _ h => Char.toNat_inj.mp h) hlist)

/-- A value with its kind, given numbers for the strings. -/
def Value.code (name : String → ℤ) : Value → ℤ ⊕ ℤ
  | .str s => .inl (name s)
  | .int i => .inr i

/-- Values have different codes if names have. -/
theorem Value.injective_code {name : String → ℤ} (hname : Function.Injective name) :
    Function.Injective (Value.code name) := by
  intro v w hvw
  cases v with
  | str s =>
    cases w with
    | str t => rw [hname (Sum.inl.inj hvw)]
    | int j => cases hvw
  | int i =>
    cases w with
    | str t => cases hvw
    | int j => rw [Sum.inr.inj hvw]

theorem exists_injective_vals : ∃ vals : List Value → ℤ, Function.Injective vals := by
  obtain ⟨name, hname⟩ := exists_injective_name
  have hcode := Value.injective_code hname
  refine ⟨fun vs => Encodable.encode (vs.map (Value.code name)), fun vs ws hvw => ?_⟩
  exact List.map_injective_iff.mpr hcode (Encodable.encode_injective (Int.ofNat.inj hvw))

/-! ## What the hash tells apart -/

namespace ParameterHandler

/-- The prime of `__hash__`. -/
def hashPrime : ℤ := 15485863

/-- The parameters, each with its values. -/
def params (h : ParameterHandler) : List (String × List Value) :=
  h.parameterNames.zip h.parameterVals

/-- The hash is a sum over the parameters, so their order is lost. -/
theorem hash_eq_sum (h : ParameterHandler) (py : PyHash) :
    h.hash py = (h.params.map fun nv => py.name nv.1 + py.vals nv.2).sum % hashPrime := by
  have hfold : ∀ (l : List (String × List Value)) (acc : ℤ),
      l.foldl (fun acc nv => (acc + (py.name nv.1 + py.vals nv.2)) % 15485863) (acc % hashPrime) =
        (acc + (l.map fun nv => py.name nv.1 + py.vals nv.2).sum) % hashPrime := by
    intro l
    induction l with
    | nil => simp
    | cons nv l ih =>
      intro acc
      have hstep : (acc % hashPrime + (py.name nv.1 + py.vals nv.2)) % 15485863 =
          (acc + (py.name nv.1 + py.vals nv.2)) % hashPrime := Int.emod_add_emod _ _ _
      rw [List.foldl_cons, hstep, ih, List.map_cons, List.sum_cons, add_assoc]
  have hzero := hfold h.params 0
  rw [zero_add] at hzero
  exact hzero

/-- The names occur equally often in both, and so do the value lists, modulo the prime. -/
def SameCounts (a b : ParameterHandler) : Prop :=
  (∀ n, occurrences n (a.params.map Prod.fst) ≡ occurrences n (b.params.map Prod.fst)
    [ZMOD hashPrime]) ∧
  ∀ vs, occurrences vs (a.params.map Prod.snd) ≡ occurrences vs (b.params.map Prod.snd)
    [ZMOD hashPrime]

/-- Names and values are added up apart, so it is not known which belong together. -/
theorem hash_eq_iff_modEq (a b : ParameterHandler) (py : PyHash) :
    a.hash py = b.hash py ↔
      ((a.params.map Prod.fst).map py.name).sum + ((a.params.map Prod.snd).map py.vals).sum ≡
        ((b.params.map Prod.fst).map py.name).sum + ((b.params.map Prod.snd).map py.vals).sum
        [ZMOD hashPrime] := by
  have hsplit : ∀ l : List (String × List Value),
      (l.map fun nv => py.name nv.1 + py.vals nv.2).sum =
        ((l.map Prod.fst).map py.name).sum + ((l.map Prod.snd).map py.vals).sum := by
    intro l
    rw [List.map_map, List.map_map]
    exact List.sum_map_add
  rw [hash_eq_sum, hash_eq_sum, hsplit, hsplit]
  rfl

/-- Two experiments that no hash function tells apart. -/
theorem hash_eq_iff_counts (a b : ParameterHandler) :
    (∀ py : PyHash, Function.Injective py.name → Function.Injective py.vals →
      a.hash py = b.hash py) ↔ SameCounts a b := by
  constructor
  · intro hall
    obtain ⟨name, hname⟩ := exists_injective_name
    obtain ⟨vals, hvals⟩ := exists_injective_vals
    have hp : (1 : ℤ) < hashPrime := by decide
    have hne : hashPrime ≠ 0 := by decide
    have hdrop : ∀ {α : Type} (g : α → ℤ) (l : List α),
        (l.map fun y => hashPrime * g y).sum ≡ 0 [ZMOD hashPrime] := by
      intro α g l
      rw [List.sum_map_mul_left]
      exact Int.modEq_zero_iff_dvd.mpr (dvd_mul_right _ _)
    constructor
    · intro n
      -- a hash that is a multiple of the prime but on the name `n`
      have hhash := (hash_eq_iff_modEq a b
        ⟨fun m => hashPrime * name m + if m = n then 1 else 0, fun vs => hashPrime * vals vs⟩).mp
        (hall _ (injective_probe hp hname n) (injective_mul hne hvals))
      have ha := (sum_map_probe hashPrime name n (a.params.map Prod.fst)).add
        (hdrop vals (a.params.map Prod.snd))
      have hb := (sum_map_probe hashPrime name n (b.params.map Prod.fst)).add
        (hdrop vals (b.params.map Prod.snd))
      rw [add_zero] at ha hb
      exact ha.symm.trans (hhash.trans hb)
    · intro vs
      have hhash := (hash_eq_iff_modEq a b
        ⟨fun m => hashPrime * name m, fun ws => hashPrime * vals ws + if ws = vs then 1 else 0⟩).mp
        (hall _ (injective_mul hne hname) (injective_probe hp hvals vs))
      have ha := (hdrop name (a.params.map Prod.fst)).add
        (sum_map_probe hashPrime vals vs (a.params.map Prod.snd))
      have hb := (hdrop name (b.params.map Prod.fst)).add
        (sum_map_probe hashPrime vals vs (b.params.map Prod.snd))
      rw [zero_add] at ha hb
      exact ha.symm.trans (hhash.trans hb)
  · intro ⟨hnames, hlists⟩ py _ _
    exact (hash_eq_iff_modEq a b py).mpr
      ((sum_map_modEq hnames py.name).add (sum_map_modEq hlists py.vals))

/-! ## Resuming -/

/-- The configurations of the grid before any filter, each as often as it is repeated. -/
def unfiltered (h : ParameterHandler) : List ParamSet :=
  h.combinations.flatMap fun cfg => List.replicate h.nRepeats cfg

/-- The same parameter names, each with the same values, and the same number of repetitions. -/
structure SameExperiment (a b : ParameterHandler) : Prop where
  parameterNames : a.parameterNames = b.parameterNames
  parameterVals : a.parameterVals = b.parameterVals
  nRepeats : a.nRepeats = b.nRepeats

theorem SameExperiment.unfiltered {a b : ParameterHandler} (h : SameExperiment a b) :
    a.unfiltered = b.unfiltered := by
  rw [ParameterHandler.unfiltered, ParameterHandler.unfiltered, combinations, combinations,
    h.parameterNames, h.parameterVals, h.nRepeats]

/-- The test of `main` separates a pair of experiments under every injective hash function only
if they are the same. Pairs with the same counts it separates under none. -/
theorem resumesSame_iff (a b : ParameterHandler) :
    ((∀ py : PyHash, Function.Injective py.name → Function.Injective py.vals →
        a.hash py = b.hash py → SameExperiment a b ∧ a.unfiltered = b.unfiltered) ↔
      SameExperiment a b) ∧
    ((∀ py : PyHash, Function.Injective py.name → Function.Injective py.vals →
        a.hash py = b.hash py) ↔ SameCounts a b) := by
  refine ⟨⟨fun hall => ?_, fun hsame _ _ _ _ => ⟨hsame, hsame.unfiltered⟩⟩,
    hash_eq_iff_counts a b⟩
  obtain ⟨name, hname⟩ := exists_injective_name
  obtain ⟨vals, hvals⟩ := exists_injective_vals
  have hne : hashPrime ≠ 0 := by decide
  -- an injective hash function whose values are all multiples of the prime
  let py : PyHash := ⟨fun n => hashPrime * name n, fun vs => hashPrime * vals vs⟩
  have hzero : ∀ h : ParameterHandler, h.hash py = 0 := by
    intro h
    rw [hash_eq_sum]
    simp only [py, ← mul_add]
    rw [List.sum_map_mul_left]
    exact Int.mul_emod_right _ _
  have hhash : a.hash py = b.hash py := (hzero a).trans (hzero b).symm
  exact (hall py (injective_mul hne hname) (injective_mul hne hvals) hhash).1

/-- Two grids that exchange the values of their parameters have one hash: no hash function tells
them apart. -/
theorem hash_exchangedValues :
    ¬ ∃ py : PyHash, (init [("rgx_enabled", [.int 0]), ("hs_enabled", [.int 1])] 1).hash py =
        (init [("rgx_enabled", [.int 1]), ("hs_enabled", [.int 0])] 1).hash py →
      SameExperiment (init [("rgx_enabled", [.int 0]), ("hs_enabled", [.int 1])] 1)
        (init [("rgx_enabled", [.int 1]), ("hs_enabled", [.int 0])] 1) := by
  intro ⟨py, himp⟩
  have hsame := himp (by
    rw [hash_eq_iff_modEq]
    simp only [init, params, List.map_cons, List.map_nil, List.zip_cons_cons, List.zip_nil_right,
      List.sum_cons, List.sum_nil]
    rw [add_comm (py.vals [.int 0])]
    exact congrArg (· % hashPrime) (by ring))
  exact absurd hsame.parameterVals (by decide)

end ParameterHandler

end Autotest
end PamoRxpBench
