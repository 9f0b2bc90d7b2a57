import PamoRxpBench.Library.Text

/-!
# The matches of an expression in a text

`re.findall` for an expression that is given as a function: for a text it returns the match at its
start and what is left after it.

* `findall_eq_cons`: a match, then the matches in what is left;
* `findall_append_of_quiet`: an expression that starts with a key has no match in a text without it.
-/

namespace PamoRxpBench
namespace Findall

variable {α : Type}

/-- The matches from left to right; the first `skip` characters belong to the last one. -/
def findallFrom (rx : Text → Option (α × Text)) : ℕ → Text → List α
  | _, [] => []
  | skip + 1, _ :: s => findallFrom rx skip s
  | 0, c :: s =>
    match rx (c :: s) with
    | some (m, rest) => m :: findallFrom rx (s.length - rest.length) s
    | none => findallFrom rx 0 s

/-- `re.findall`. -/
def findall (rx : Text → Option (α × Text)) (s : Text) : List α := findallFrom rx 0 s

variable {rx : Text → Option (α × Text)}

theorem findallFrom_eq_drop (rx : Text → Option (α × Text)) (skip : ℕ) (s : Text) :
    findallFrom rx skip s = findall rx (s.drop skip) := by
  induction s generalizing skip with
  | nil =>
    rw [List.drop_nil]
    cases skip <;> rfl
  | cons c s ih =>
    match skip with
    | 0 => rfl
    | skip + 1 => exact ih skip

theorem findall_cons_of_none {c : Char} {s : Text} (h : rx (c :: s) = none) :
    findall rx (c :: s) = findall rx s := by
  rw [findall, findallFrom, h]
  rfl

/-- What is left after a match is a part of the text, and shorter. -/
def Consumes (rx : Text → Option (α × Text)) : Prop :=
  ∀ s m rest, rx s = some (m, rest) → rest <:+ s ∧ rest.length < s.length

/-- A match at the start. -/
theorem findall_eq_cons (hrx : Consumes rx) {s rest : Text} {m : α} (h : rx s = some (m, rest)) :
    findall rx s = m :: findall rx rest := by
  obtain ⟨hsuffix, hlt⟩ := hrx s m rest h
  match s with
  | [] => exact absurd hlt (Nat.not_lt_zero _)
  | c :: s =>
    have hrest : rest = s.drop (s.length - rest.length) := by
      have hdrop := List.suffix_iff_eq_drop.mp hsuffix
      rw [List.length_cons] at hlt hdrop
      rwa [Nat.sub_add_comm (Nat.le_of_lt_succ hlt), List.drop_succ_cons] at hdrop
    rw [findall, findallFrom, h]
    show m :: findallFrom rx (s.length - rest.length) s = _
    rw [findallFrom_eq_drop, ← hrest]

/-! ## Expressions that start with a key -/

/-- A match starts with the key. -/
def Anchored (key : Text) (rx : Text → Option (α × Text)) : Prop :=
  ∀ s, ¬ key <+: s → rx s = none

/-- A text that is empty or starts with the character. -/
def StartsWith (sep : Char) (s : Text) : Prop := ∀ c ∈ s.head?, c = sep

/-- A key without the separator does not go over it. -/
theorem prefix_of_prefix_append {key s rest : Text} {sep : Char} (hsep : sep ∉ key)
    (hrest : StartsWith sep rest) (h : key <+: s ++ rest) : key <+: s := by
  match rest with
  | [] => rwa [List.append_nil] at h
  | c :: rest =>
    obtain rfl : c = sep := hrest c rfl
    rcases List.prefix_or_prefix_of_prefix h (List.prefix_append s (c :: rest)) with hs | hs
    · exact hs
    · obtain ⟨t, rfl⟩ := hs
      rw [List.prefix_append_right_inj] at h
      match t with
      | [] => exact ⟨[], by rw [List.append_nil, List.append_nil]⟩
      | d :: t =>
        obtain ⟨hd, _⟩ := List.cons_prefix_cons.mp h
        rw [hd] at hsep
        exact absurd (List.mem_append_right s List.mem_cons_self) hsep

/-- Up to the separator there is no match in a text without the key. -/
theorem findall_append_of_quiet {key s rest : Text} {sep : Char} (hrx : Anchored key rx)
    (hsep : sep ∉ key) (hrest : StartsWith sep rest) (hs : ¬ key <:+: s) :
    findall rx (s ++ rest) = findall rx rest := by
  induction s with
  | nil => rfl
  | cons c s ih =>
    have hnone : rx (c :: s ++ rest) = none := hrx _ fun h =>
      hs (prefix_of_prefix_append hsep hrest h).isInfix
    rw [List.cons_append] at hnone ⊢
    rw [findall_cons_of_none hnone]
    exact ih fun h => hs (h.trans (List.suffix_cons c s).isInfix)

/-- Characters that the key does not start with are skipped. -/
theorem findall_dropWhile {k : Char} {key : Text} {p : Char → Bool} (hrx : Anchored (k :: key) rx)
    (hk : p k = false) (s : Text) : findall rx (s.dropWhile p) = findall rx s := by
  induction s with
  | nil => rfl
  | cons c s ih =>
    by_cases hc : p c = true
    · have hnone : rx (c :: s) = none := hrx _ fun h => by
        rw [(List.cons_prefix_cons.mp h).1, hc] at hk
        exact Bool.noConfusion hk
      rw [List.dropWhile_cons_of_pos hc, ih, findall_cons_of_none hnone]
    · rw [List.dropWhile_cons_of_neg hc]

/-! ## Runs of characters up to a separator -/

theorem dropWhile_append_of_startsWith {p : Char → Bool} {sep : Char} {s rest : Text}
    (hp : p sep = false) (hrest : StartsWith sep rest) :
    (s ++ rest).dropWhile p = s.dropWhile p ++ rest := by
  induction s with
  | nil =>
    match rest with
    | [] => rfl
    | c :: rest =>
      obtain rfl : c = sep := hrest c rfl
      exact List.dropWhile_cons_of_neg (by rw [hp]; decide)
  | cons c s ih =>
    by_cases hc : p c = true
    · rw [List.cons_append, List.dropWhile_cons_of_pos hc, List.dropWhile_cons_of_pos hc, ih]
    · rw [List.cons_append, List.dropWhile_cons_of_neg hc, List.dropWhile_cons_of_neg hc]
      rfl

end Findall
end PamoRxpBench
