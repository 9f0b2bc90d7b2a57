import Mathlib.Data.Int.CardIntervalMod

/-!
# Round robin

`roundRobin N n` deals `n` items to the places `1, …, N` in turn. Each place gets `n / N` items,
and the first `n % N` places one more (`count_roundRobin`), so two places never differ by more
than one (`roundRobin_balanced`).
-/

namespace PamoRxpBench

/-- The places of the first `n` items dealt to the places `1, …, N` in turn. -/
def roundRobin (N n : ℕ) : List ℕ := (List.range n).map fun k => k % N + 1

namespace RoundRobin

variable {N n : ℕ}

@[simp] theorem length_roundRobin : (roundRobin N n).length = n := by simp [roundRobin]

theorem getElem_roundRobin {k : ℕ} (hk : k < (roundRobin N n).length) :
    (roundRobin N n)[k] = k % N + 1 := by simp [roundRobin]

theorem take_roundRobin (m : ℕ) : (roundRobin N n).take m = roundRobin N (min m n) := by
  rw [roundRobin, ← List.map_take, List.take_range]
  rfl

theorem mem_roundRobin (hN : 0 < N) {g : ℕ} (hg : g ∈ roundRobin N n) : 1 ≤ g ∧ g ≤ N := by
  obtain ⟨k, -, rfl⟩ := List.mem_map.mp hg
  have := Nat.mod_lt k hN
  omega

/-- The next place. -/
theorem succ_mod (hN : 0 < N) (k : ℕ) : (k + 1) % N = if k % N + 1 = N then 0 else k % N + 1 := by
  have hlt := Nat.mod_lt k hN
  by_cases hlast : k % N + 1 = N
  · rw [if_pos hlast, ← Nat.mod_add_mod, hlast, Nat.mod_self]
  · rw [if_neg hlast, ← Nat.mod_add_mod]
    exact Nat.mod_eq_of_lt (by omega)

/-- How often each of `N` groups has its turn in `n` turns: the first ones get what is left over. -/
theorem count_roundRobin {g : ℕ} (hg : 1 ≤ g) (hgN : g ≤ N) :
    (roundRobin N n).count g = n / N + if g - 1 < n % N then 1 else 0 := by
  have hcount : (roundRobin N n).count g = n.count (· ≡ g - 1 [MOD N]) := by
    rw [roundRobin, List.count, List.countP_map, Nat.count]
    apply List.countP_congr
    intro k _
    have hsmall : (g - 1) % N = g - 1 := Nat.mod_eq_of_lt (by omega)
    simp only [Function.comp_apply, beq_iff_eq, decide_eq_true_eq, Nat.ModEq, hsmall]
    omega
  rw [hcount, Nat.count_modEq_card n (by omega), Nat.mod_eq_of_lt (by omega : g - 1 < N)]

/-- Two places differ by at most one. -/
theorem roundRobin_balanced {g h : ℕ} (hg : 1 ≤ g) (hgN : g ≤ N) (hh : 1 ≤ h) (hhN : h ≤ N) :
    (roundRobin N n).count g ≤ (roundRobin N n).count h + 1 := by
  rw [count_roundRobin hg hgN, count_roundRobin hh hhN]
  split <;> split <;> omega

end RoundRobin
end PamoRxpBench
