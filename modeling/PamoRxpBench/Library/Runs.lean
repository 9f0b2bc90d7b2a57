import Mathlib.Data.List.Infix
import Mathlib.Tactic.Basic

/-!
# Runs of a partial step function

A machine is a step function `S → A → Option S`; `run` folds it over a list of inputs and
stops at the first input the machine cannot take. `run_append` cuts a run in two,
`run_invariant` carries an invariant over a run and `run_history` one that also speaks of the
inputs taken so far; `Meets` restricts a run by a condition on its steps, and
`run_eq_none_iff` says where a run fails.
-/

namespace PamoRxpBench
namespace Runs

variable {S A : Type}

/-- The state after the inputs `as`, if all of them could be taken. -/
def run (step : S → A → Option S) : S → List A → Option S
  | s, [] => some s
  | s, a :: as => (step s a).bind fun s => run step s as

variable {step : S → A → Option S}

@[simp] theorem run_nil (s : S) : run step s [] = some s := rfl

theorem run_cons (s : S) (a : A) (as : List A) :
    run step s (a :: as) = (step s a).bind fun s => run step s as := rfl

/-- A run of two lists is one after the other. -/
theorem run_append (s : S) (as bs : List A) :
    run step s (as ++ bs) = (run step s as).bind fun s => run step s bs := by
  induction as generalizing s with
  | nil => rfl
  | cons a as ih =>
    rw [List.cons_append, run_cons, run_cons, Option.bind_assoc]
    exact congrArg _ (funext fun s => ih s)

/-- A run cut at any place. -/
theorem run_append_eq_some {s t : S} {as bs : List A} (h : run step s (as ++ bs) = some t) :
    ∃ u, run step s as = some u ∧ run step u bs = some t := by
  rw [run_append] at h
  exact Option.bind_eq_some_iff.mp h

theorem run_concat_eq_some {s t : S} {as : List A} {a : A}
    (h : run step s (as ++ [a]) = some t) :
    ∃ u, run step s as = some u ∧ step u a = some t := by
  obtain ⟨u, hu, ht⟩ := run_append_eq_some h
  rw [run_cons] at ht
  obtain ⟨v, hv, hvt⟩ := Option.bind_eq_some_iff.mp ht
  obtain rfl := Option.some.inj hvt
  exact ⟨u, hu, hv⟩

theorem run_concat {s u : S} {as : List A} (a : A) (h : run step s as = some u) :
    run step s (as ++ [a]) = step u a := by
  rw [run_append, h, Option.bind_some, run_cons]
  cases step u a <;> rfl

/-- What the steps preserve holds after a run if it held before. -/
theorem run_invariant {P : S → Prop} (hstep : ∀ s a t, P s → step s a = some t → P t)
    {s t : S} {as : List A} (hs : P s) (h : run step s as = some t) : P t := by
  induction as generalizing s with
  | nil => exact Option.some.inj h ▸ hs
  | cons a as ih =>
    obtain ⟨u, hu, ht⟩ := Option.bind_eq_some_iff.mp h
    exact ih (hstep s a u hs hu) ht

/-- The same with an invariant on the inputs taken so far. -/
theorem run_history {P : List A → S → Prop}
    (hstep : ∀ as s a t, P as s → step s a = some t → P (as ++ [a]) t)
    {s t : S} {as : List A} (hs : P [] s) (h : run step s as = some t) : P as t := by
  induction as using List.reverseRecOn generalizing t with
  | nil => exact Option.some.inj h ▸ hs
  | append_singleton as a ih =>
    obtain ⟨u, hu, ht⟩ := run_concat_eq_some h
    exact hstep as u a t (ih hu) ht

/-! ## Runs whose steps meet a condition -/

/-- Every step of the run meets `C` in the state it is taken in. -/
def Meets (step : S → A → Option S) (C : S → A → Prop) : S → List A → Prop
  | _, [] => True
  | s, a :: as => C s a ∧ ∀ t, step s a = some t → Meets step C t as

/-- What the steps that meet a condition preserve. -/
theorem run_invariant_of_meets {P : S → Prop} {C : S → A → Prop}
    (hstep : ∀ s a t, P s → C s a → step s a = some t → P t) {s t : S} {as : List A}
    (hs : P s) (hC : Meets step C s as) (h : run step s as = some t) : P t := by
  induction as generalizing s with
  | nil => exact Option.some.inj h ▸ hs
  | cons a as ih =>
    obtain ⟨u, hu, ht⟩ := Option.bind_eq_some_iff.mp h
    exact ih (hstep s a u hs hC.1 hu) (hC.2 u hu) ht

/-- The same with an invariant on the inputs taken so far. -/
theorem run_history_of_meets {P : List A → S → Prop} {C : S → A → Prop}
    (hstep : ∀ as s a t, P as s → C s a → step s a = some t → P (as ++ [a]) t) {s t : S}
    {before as : List A} (hs : P before s) (hC : Meets step C s as) (h : run step s as = some t) :
    P (before ++ as) t := by
  induction as generalizing before s with
  | nil =>
    rw [List.append_nil]
    exact Option.some.inj h ▸ hs
  | cons a as ih =>
    obtain ⟨u, hu, ht⟩ := Option.bind_eq_some_iff.mp h
    have hnext := ih (hstep before s a u hs hC.1 hu) (hC.2 u hu) ht
    rwa [List.append_assoc] at hnext

/-- The condition holds at every step that a run reaches. -/
theorem meets_append {C : S → A → Prop} {s t : S} {as bs : List A}
    (hC : Meets step C s (as ++ bs)) (h : run step s as = some t) : Meets step C t bs := by
  induction as generalizing s with
  | nil => exact Option.some.inj h ▸ hC
  | cons a as ih =>
    obtain ⟨u, hu, ht⟩ := Option.bind_eq_some_iff.mp h
    exact ih (hC.2 u hu) ht

/-- A prefix of a run meets the condition too. -/
theorem meets_left {C : S → A → Prop} {s : S} {as bs : List A}
    (hC : Meets step C s (as ++ bs)) : Meets step C s as := by
  induction as generalizing s with
  | nil => trivial
  | cons a as ih => exact ⟨hC.1, fun u hu => ih (hC.2 u hu)⟩

/-- A run fails at its first step that cannot be taken. -/
theorem run_eq_none_iff {s : S} {as : List A} :
    run step s as = none ↔ ∃ before a after t, as = before ++ a :: after ∧
      run step s before = some t ∧ step t a = none := by
  constructor
  · intro h
    induction as generalizing s with
    | nil => cases h
    | cons a as ih =>
      cases hstep : step s a with
      | none => exact ⟨[], a, as, s, rfl, rfl, hstep⟩
      | some u =>
        rw [run_cons, hstep] at h
        obtain ⟨before, b, after, t, rfl, hrun, hnone⟩ := ih h
        refine ⟨a :: before, b, after, t, rfl, ?_, hnone⟩
        rw [run_cons, hstep]
        exact hrun
  · intro ⟨before, a, after, t, has, hrun, hnone⟩
    rw [has, run_append, hrun, Option.bind_some, run_cons, hnone]
    rfl

theorem meets_cons_of_some {C : S → A → Prop} {s t : S} {a : A} {as : List A}
    (h : step s a = some t) : C s a ∧ Meets step C t as ↔ Meets step C s (a :: as) := by
  refine and_congr_right fun _ => ⟨fun hmeets u hu => ?_, fun hmeets => hmeets t h⟩
  rw [← Option.some.inj (h.symm.trans hu)]
  exact hmeets

theorem meets_cons_of_none {C : S → A → Prop} {s : S} {a : A} {as : List A}
    (h : step s a = none) : C s a ↔ Meets step C s (a :: as) := by
  refine ⟨fun hC => ⟨hC, fun u hu => ?_⟩, fun hmeets => hmeets.1⟩
  rw [h] at hu
  cases hu

instance decidableMeets {C : S → A → Prop} [∀ s a, Decidable (C s a)] :
    ∀ (s : S) (as : List A), Decidable (Meets step C s as)
  | _, [] => isTrue trivial
  | s, a :: as =>
    match h : step s a with
    | some t =>
      have : Decidable (Meets step C t as) := decidableMeets t as
      decidable_of_iff _ (meets_cons_of_some h)
    | none => decidable_of_iff _ (meets_cons_of_none h)

end Runs
end PamoRxpBench
