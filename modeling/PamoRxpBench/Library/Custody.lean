import Mathlib.Data.List.Nodup
import Mathlib.Logic.Function.Basic

/-!
# Custody: tokens that are handed from holder to holder

A *custody log* is a list of hand-overs `(token, source, target)`. Replaying it is strict:
a hand-over is refused when the token is not with its source. So a log that replays is one
in which nobody ever gives away what he does not have, and the usual "exactly once"
statements become counting statements about it.

* `replay_append`, `replay_moves`: how logs compose, and what a bulk hand-over does (who holds
  what behind it: `moved_target_iff`, `moved_source_iff`, `moved_other_iff`);
* `balance`: for every token and holder, arrivals and departures differ by what the holder
  had before and has after. "A token that reaches a holder nobody leaves reaches it exactly
  once" is the instance with no departures (`arrivals_of_sink`).
-/

namespace PamoRxpBench
namespace Custody

/-- One hand-over of `token` from `source` to `target`. -/
structure Transfer (T H : Type) where
  token : T
  source : H
  target : H
deriving DecidableEq, Repr

variable {T H : Type} [DecidableEq T] [DecidableEq H]

/-- Hand one token over; refused when `source` does not hold it. -/
def Transfer.post (t : Transfer T H) (held : T → H) : Option (T → H) :=
  if held t.token = t.source then some (Function.update held t.token t.target) else none

/-- Hand over every token of a log, in order. -/
def replay (held : T → H) : List (Transfer T H) → Option (T → H)
  | [] => some held
  | t :: ts => (t.post held).bind fun h => replay h ts

/-- How often the log hands `m` to `h`. -/
def arrivals (h : H) (m : T) (log : List (Transfer T H)) : ℕ :=
  log.countP fun t => t.token = m ∧ t.target = h

/-- How often the log takes `m` from `h`. -/
def departures (h : H) (m : T) (log : List (Transfer T H)) : ℕ :=
  log.countP fun t => t.token = m ∧ t.source = h

@[simp] theorem replay_nil (held : T → H) : replay held [] = some held := rfl

@[simp] theorem arrivals_nil (h : H) (m : T) : arrivals h m [] = 0 := rfl

@[simp] theorem departures_nil (h : H) (m : T) : departures h m [] = 0 := rfl

/-- A log that can be replayed starts with a transfer from the holder of its token. -/
theorem replay_cons_eq_some {held held' : T → H} {t : Transfer T H} {ts : List (Transfer T H)}
    (h : replay held (t :: ts) = some held') :
    held t.token = t.source ∧ replay (Function.update held t.token t.target) ts = some held' := by
  have hbind : (t.post held).bind (fun h => replay h ts) = some held' := h
  obtain ⟨mid, hpost, hts⟩ := Option.bind_eq_some_iff.mp hbind
  have hsrc : held t.token = t.source := by
    by_contra hne
    rw [Transfer.post, if_neg hne] at hpost
    cases hpost
  rw [Transfer.post, if_pos hsrc] at hpost
  exact ⟨hsrc, Option.some.inj hpost ▸ hts⟩

theorem replay_append (held : T → H) (xs ys : List (Transfer T H)) :
    replay held (xs ++ ys) = (replay held xs).bind fun h => replay h ys := by
  induction xs generalizing held with
  | nil => rfl
  | cons t ts ih =>
    simp only [List.cons_append, replay]
    cases t.post held with
    | none => rfl
    | some h => exact ih h

/-- A log that replays has prefixes that replay. -/
theorem replay_prefix {held held' : T → H} {xs ys : List (Transfer T H)}
    (h : replay held (xs ++ ys) = some held') :
    ∃ mid, replay held xs = some mid ∧ replay mid ys = some held' := by
  rw [replay_append] at h
  exact Option.bind_eq_some_iff.mp h

/-! ## Bulk hand-overs -/

/-- Hand every token of `ms` from `src` to `dst`, in order. -/
def moves (src dst : H) (ms : List T) : List (Transfer T H) :=
  ms.map fun m => ⟨m, src, dst⟩

omit [DecidableEq T] [DecidableEq H] in
@[simp] theorem moves_nil (src dst : H) : moves src dst ([] : List T) = [] := rfl

/-- A bulk hand-over of distinct tokens, all with `src`, goes through and leaves exactly
those tokens with `dst`. -/
theorem replay_moves {src dst : H} {ms : List T} (hms : ms.Nodup) (held : T → H)
    (hsrc : ∀ m ∈ ms, held m = src) :
    replay held (moves src dst ms) = some fun m => if m ∈ ms then dst else held m := by
  induction ms generalizing held with
  | nil => simp
  | cons m ms ih =>
    obtain ⟨hm, hnd⟩ := List.nodup_cons.mp hms
    have hpost : (⟨m, src, dst⟩ : Transfer T H).post held
        = some (Function.update held m dst) := if_pos (hsrc m List.mem_cons_self)
    have hrest : ∀ x ∈ ms, Function.update held m dst x = src := by
      intro x hx
      rw [Function.update_of_ne (ne_of_mem_of_not_mem hx hm)]
      exact hsrc x (List.mem_cons_of_mem _ hx)
    simp only [moves, List.map_cons, replay, hpost, Option.bind_some]
    refine (ih hnd _ hrest).trans (congrArg some (funext fun x => ?_))
    by_cases hx : x = m
    · subst hx; simp [hm]
    · simp [hx]

section Moved

variable {src dst h : H} {ms : List T} {held : T → H}

omit [DecidableEq H]

/-- The target holds what was moved and what it had before. -/
theorem moved_target_iff (m : T) :
    (if m ∈ ms then dst else held m) = dst ↔ m ∈ ms ∨ held m = dst := by
  by_cases hm : m ∈ ms
  · simp [hm]
  · simp [hm]

/-- The source keeps what was not moved. -/
theorem moved_source_iff (hne : dst ≠ src) (m : T) :
    (if m ∈ ms then dst else held m) = src ↔ held m = src ∧ m ∉ ms := by
  by_cases hm : m ∈ ms
  · simp [hm, hne]
  · simp [hm]

/-- Any other holder holds what it held. -/
theorem moved_other_iff (hsrc : ∀ m ∈ ms, held m = src) (hh : src ≠ h ∧ dst ≠ h) (m : T) :
    (if m ∈ ms then dst else held m) = h ↔ held m = h := by
  by_cases hm : m ∈ ms
  · simp [hm, hsrc m hm, hh.1, hh.2]
  · simp [hm]

end Moved

/-! ## Conservation -/

/-- **Balance.** For every token and holder: what was there plus what arrived is what is
there plus what left. -/
theorem balance {held held' : T → H} {log : List (Transfer T H)} (h : H) (m : T)
    (hr : replay held log = some held') :
    (if held m = h then 1 else 0) + arrivals h m log
      = (if held' m = h then 1 else 0) + departures h m log := by
  induction log generalizing held with
  | nil =>
    obtain rfl : held = held' := by simpa using hr
    rfl
  | cons t ts ih =>
    obtain ⟨hsrc, hts⟩ := replay_cons_eq_some hr
    have hrest := ih hts
    simp only [arrivals, departures, List.countP_cons] at hrest ⊢
    by_cases hm : t.token = m
    · subst hm
      rw [Function.update_self] at hrest
      simp only [true_and, decide_eq_true_eq, hsrc] at hrest ⊢
      omega
    · rw [Function.update_of_ne (Ne.symm hm)] at hrest
      simp only [hm, false_and, decide_false, Bool.false_eq_true, if_false] at hrest ⊢
      omega

/-- A holder that nothing leaves, and that did not have the token to begin with, received
it once if it has it now and never otherwise. -/
theorem arrivals_of_sink {held held' : T → H} {log : List (Transfer T H)} {h : H} {m : T}
    (hr : replay held log = some held') (hinit : held m ≠ h)
    (hsink : departures h m log = 0) :
    arrivals h m log = if held' m = h then 1 else 0 := by
  have hb := balance h m hr
  rw [if_neg hinit, hsink] at hb
  omega

/-- A token that never leaves the holder it starts with is handed to nobody. -/
theorem arrivals_of_departures {held held' : T → H} {log : List (Transfer T H)} {m : T}
    (hr : replay held log = some held') (hstay : departures (held m) m log = 0) (h : H) :
    arrivals h m log = 0 := by
  induction log generalizing held with
  | nil => rfl
  | cons t ts ih =>
    obtain ⟨hsrc, hts⟩ := replay_cons_eq_some hr
    have htoken : t.token ≠ m := by
      intro heq
      rw [departures, List.countP_cons, ← heq, hsrc] at hstay
      simp at hstay
    have hrest := ih hts
    rw [Function.update_of_ne (Ne.symm htoken)] at hrest
    simp only [departures, arrivals, List.countP_cons] at hstay hrest ⊢
    simp only [htoken, false_and, decide_false, Bool.false_eq_true, if_false] at hstay ⊢
    exact hrest hstay

end Custody
end PamoRxpBench
