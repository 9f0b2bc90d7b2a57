import Mathlib.Tactic.Basic
import Mathlib.Data.List.Basic
import Mathlib.Data.Nat.Notation

/-!
# Programs that draw at random

A program in `Gen` takes its random numbers from a stream, one for each draw, and may raise an
exception (`none`). A draw reduces the number to the size of its range, so every sequence of
choices is the one of some stream. `Yields g P` says that on every stream `g` returns, and what it
returns satisfies `P`; there is one rule for each way to build a program.
-/

namespace PamoRxpBench

/-- A program with random draws. -/
abbrev Gen (α : Type) := StateT (ℕ → ℕ) Option α

namespace Gen

variable {α β : Type}

/-- A number below `n`. -/
def below (n : ℕ) : Gen ℕ := fun draws => some (draws 0 % n, fun i => draws (i + 1))

/-- An exception. -/
def raise : Gen α := fun _ => none

/-- `random.randint(a, b)`. -/
def randint (a b : ℕ) : Gen ℕ :=
  if a ≤ b then below (b - a + 1) >>= fun k => pure (a + k) else raise

/-- `random.choice(l)`. -/
def choice (l : List α) : Gen α := below l.length >>= fun i =>
  match l[i]? with
  | some a => pure a
  | none => raise

/-- Whatever is drawn, the program returns a value with the property. -/
def Yields (g : Gen α) (P : α → Prop) : Prop :=
  ∀ draws, ∃ a rest, g draws = some (a, rest) ∧ P a

variable {P : α → Prop} {Q : β → Prop}

theorem yields_pure {a : α} (h : P a) : Yields (pure a) P := fun draws => ⟨a, draws, rfl, h⟩

/-- What is drawn first holds for whatever is made of it. -/
theorem yields_bind {g : Gen α} {f : α → Gen β} (hg : Yields g P)
    (hf : ∀ a, P a → Yields (f a) Q) : Yields (g >>= f) Q := by
  intro draws
  obtain ⟨a, rest, hrun, ha⟩ := hg draws
  obtain ⟨b, rest', hrun', hb⟩ := hf a ha rest
  refine ⟨b, rest', ?_, hb⟩
  show (g draws).bind (fun p => f p.1 p.2) = _
  rw [hrun]
  exact hrun'

/-- A promise can be weakened. -/
theorem Yields.mono {g : Gen α} {P' : α → Prop} (hg : Yields g P) (h : ∀ a, P a → P' a) :
    Yields g P' := by
  intro draws
  obtain ⟨a, rest, hrun, ha⟩ := hg draws
  exact ⟨a, rest, hrun, h a ha⟩

theorem yields_ite {c : Prop} [Decidable c] {g g' : Gen α} (hg : c → Yields g P)
    (hg' : ¬ c → Yields g' P) : Yields (if c then g else g') P := by
  by_cases h : c
  · rw [if_pos h]
    exact hg h
  · rw [if_neg h]
    exact hg' h

/-- A draw below a positive bound stays below it. -/
theorem yields_below {n : ℕ} (h : 0 < n) : Yields (below n) (· < n) :=
  fun draws => ⟨draws 0 % n, _, rfl, Nat.mod_lt _ h⟩

/-- Both ends of the range can be drawn. -/
theorem yields_randint {a b : ℕ} (h : a ≤ b) : Yields (randint a b) fun n => a ≤ n ∧ n ≤ b := by
  unfold randint
  rw [if_pos h]
  refine yields_bind (yields_below (Nat.succ_pos _)) fun k hk => yields_pure ?_
  omega

/-- What is chosen is one of the list, if it has any. -/
theorem yields_choice {l : List α} (h : l ≠ []) : Yields (choice l) (· ∈ l) := by
  refine yields_bind (yields_below (List.length_pos_of_ne_nil h)) fun i hi => ?_
  rw [List.getElem?_eq_getElem hi]
  exact yields_pure (List.getElem_mem hi)

/-- A program for each element of a list. -/
theorem yields_mapM {l : List α} {f : α → Gen β} (h : ∀ a ∈ l, Yields (f a) Q) :
    Yields (l.mapM f) fun bs => bs.length = l.length ∧ ∀ b ∈ bs, Q b := by
  induction l with
  | nil => exact yields_pure ⟨rfl, fun _ hb => absurd hb List.not_mem_nil⟩
  | cons a l ih =>
    rw [List.mapM_cons]
    refine yields_bind (h a List.mem_cons_self) fun b hb => ?_
    refine yields_bind (ih fun a ha => h a (List.mem_cons_of_mem _ ha)) fun bs hbs => ?_
    refine yields_pure ⟨congrArg (· + 1) hbs.1, fun b' hb' => ?_⟩
    rcases List.mem_cons.mp hb' with rfl | hmem
    · exact hb
    · exact hbs.2 b' hmem

end Gen
end PamoRxpBench
