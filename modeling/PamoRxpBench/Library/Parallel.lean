import PamoRxpBench.Library.Runs
import PamoRxpBench.Library.Shell

/-!
# Scripts side by side

Several scripts work in one directory, one command at a time and in any order; a step names the
script that goes on. Each file remembers the script that wrote it last. A step is `Clean` if
what it reads was last written by the same script, or by none of them.

* `Tracked.step`: a clean step keeps every script on the run it would make alone, as far as the
  files are its own;
* `files_eq_alone`: so when a script is done, the files no other script touches are what they
  would be if it had run alone.
-/

namespace PamoRxpBench
namespace Parallel

open Shell Runs

variable {ι F B : Type} [DecidableEq ι] [DecidableEq F]

/-- The directory, what is left of each script, and which of them wrote a file last. -/
structure State (ι F B : Type) where
  files : Files F B
  rest : ι → Script F B
  writer : F → Option ι

/-- Before the first step. -/
def State.init (scripts : ι → Script F B) (files : Files F B) : State ι F B where
  files := files
  rest := scripts
  writer := fun _ => none

/-- Script `i` is left with `rest`. -/
def State.goOn (s : State ι F B) (i : ι) (rest : Script F B) : State ι F B :=
  { s with rest := Function.update s.rest i rest }

/-- Script `i` runs a command. -/
def State.act (s : State ι F B) (i : ι) (c : Command F B) (rest : Script F B) : State ι F B where
  files := c.exec s.files
  rest := (s.goOn i rest).rest
  writer := fun f => if f ∈ c.written s.files then some i else s.writer f

/-- The next command of script `i`, or its next test. -/
def State.step (s : State ι F B) (i : ι) : Option (State ι F B) :=
  match s.rest i with
  | .done => none
  | .act c rest => some (s.act i c rest)
  | .ifExists f yes no => some (s.goOn i (if (s.files f).isSome then yes else no))

omit [DecidableEq F] in
@[simp] theorem State.goOn_rest_self (s : State ι F B) (i : ι) (rest : Script F B) :
    (s.goOn i rest).rest i = rest := by
  unfold goOn
  exact Function.update_self i rest s.rest

omit [DecidableEq F] in
theorem State.goOn_rest_of_ne (s : State ι F B) {i j : ι} (rest : Script F B) (h : j ≠ i) :
    (s.goOn i rest).rest j = s.rest j := by
  unfold goOn
  exact Function.update_of_ne h rest s.rest

theorem State.act_writer_of_written (s : State ι F B) (i : ι) {c : Command F B}
    (rest : Script F B) {f : F} (h : f ∈ c.written s.files) :
    (s.act i c rest).writer f = some i := if_pos h

theorem State.act_writer_of_not_written (s : State ι F B) (i : ι) {c : Command F B}
    (rest : Script F B) {f : F} (h : f ∉ c.written s.files) :
    (s.act i c rest).writer f = s.writer f := if_neg h

/-- The files that script `i` reads next. -/
def State.nextReads (s : State ι F B) (i : ι) : List F :=
  match s.rest i with
  | .done => []
  | .act c _ => c.reads
  | .ifExists f _ _ => [f]

/-- What script `i` reads next was last written by itself, or by none. -/
def State.Clean (s : State ι F B) (i : ι) : Prop :=
  ∀ f ∈ s.nextReads i, s.writer f = none ∨ s.writer f = some i

instance (s : State ι F B) (i : ι) : Decidable (s.Clean i) :=
  inferInstanceAs (Decidable (∀ f ∈ s.nextReads i, s.writer f = none ∨ s.writer f = some i))

variable {scripts : ι → Script F B} {files : Files F B} {s t : State ι F B}

/-- Every script is on the run it would make alone: `solo` is where that run is, and it has the
files that the script wrote last or that nobody wrote. -/
structure Tracked (scripts : ι → Script F B) (files : Files F B) (s : State ι F B) : Prop where
  alone : ∀ i, ∃ solo : Files F B, (s.rest i).run solo = (scripts i).run files ∧
    ∀ f, s.writer f = none ∨ s.writer f = some i → s.files f = solo f
  rest_touched : ∀ i, (s.rest i).touched ⊆ (scripts i).touched
  writer_touched : ∀ f i, s.writer f = some i → f ∈ (scripts i).touched

omit [DecidableEq ι] in
theorem Tracked.init (scripts : ι → Script F B) (files : Files F B) :
    Tracked scripts files (State.init scripts files) where
  alone := fun i => ⟨files, rfl, fun _ _ => rfl⟩
  rest_touched := fun i => List.Subset.refl _
  writer_touched := by
    intro f i h
    cases h

/-- What is left after going on is a part of the script. -/
theorem Tracked.touched_goOn (h : Tracked scripts files s) {i : ι} {rest : Script F B}
    (hrest : rest.touched ⊆ (s.rest i).touched) (j : ι) :
    ((s.goOn i rest).rest j).touched ⊆ (scripts j).touched := by
  by_cases hj : j = i
  · rw [hj, State.goOn_rest_self]
    exact List.Subset.trans hrest (h.rest_touched i)
  · rw [State.goOn_rest_of_ne s rest hj]
    exact h.rest_touched j

omit [DecidableEq ι] [DecidableEq F] in
/-- What a command of script `i` reads is what the run of `i` alone reads. -/
theorem State.Clean.agree {i : ι} {solo : Files F B} (hclean : s.Clean i)
    (hfiles : ∀ f, s.writer f = none ∨ s.writer f = some i → s.files f = solo f) :
    ∀ f ∈ s.nextReads i, s.files f = solo f := fun f hf => hfiles f (hclean f hf)

/-- A clean command does the same in the run of its script alone. -/
theorem State.Clean.act_files_self {i : ι} {c : Command F B} {rest : Script F B}
    {solo : Files F B} (hclean : s.Clean i) (hrest : s.rest i = .act c rest)
    (hfiles : ∀ f, s.writer f = none ∨ s.writer f = some i → s.files f = solo f) {f : F}
    (hf : (s.act i c rest).writer f = none ∨ (s.act i c rest).writer f = some i) :
    (s.act i c rest).files f = c.exec solo f := by
  have hreads : ∀ f ∈ c.reads, s.files f = solo f := by
    have hagree := hclean.agree hfiles
    rw [State.nextReads, hrest] at hagree
    exact hagree
  show c.exec s.files f = c.exec solo f
  by_cases hwritten : f ∈ c.written s.files
  · exact c.exec_congr hreads hwritten
  · rw [s.act_writer_of_not_written i rest hwritten] at hf
    have hsolo : f ∉ c.written solo := c.written_congr hreads ▸ hwritten
    rw [c.exec_of_not_written _ hwritten, c.exec_of_not_written _ hsolo, hfiles f hf]

/-- No file of another script is written. -/
theorem State.act_files_of_ne {i j : ι} {c : Command F B} {rest : Script F B} {solo : Files F B}
    (hj : j ≠ i) (hfiles : ∀ f, s.writer f = none ∨ s.writer f = some j → s.files f = solo f)
    {f : F} (hf : (s.act i c rest).writer f = none ∨ (s.act i c rest).writer f = some j) :
    (s.act i c rest).files f = solo f := by
  show c.exec s.files f = solo f
  by_cases hwritten : f ∈ c.written s.files
  · rw [s.act_writer_of_written i rest hwritten] at hf
    rcases hf with hf | hf
    · cases hf
    · exact absurd (Option.some.inj hf).symm hj
  · rw [s.act_writer_of_not_written i rest hwritten] at hf
    rw [c.exec_of_not_written _ hwritten, hfiles f hf]

/-- A clean step of a command. -/
theorem Tracked.act (h : Tracked scripts files s) {i : ι} {c : Command F B} {rest : Script F B}
    (hrest : s.rest i = .act c rest) (hclean : s.Clean i) :
    Tracked scripts files (s.act i c rest) where
  alone := by
    intro j
    obtain ⟨solo, hrun, hfiles⟩ := h.alone j
    by_cases hj : j = i
    · rw [hj] at hrun hfiles ⊢
      rw [hrest] at hrun
      refine ⟨c.exec solo, ?_, fun f hf => hclean.act_files_self hrest hfiles hf⟩
      show ((s.goOn i rest).rest i).run (c.exec solo) = _
      rw [State.goOn_rest_self]
      exact hrun
    · refine ⟨solo, ?_, fun f hf => State.act_files_of_ne hj hfiles hf⟩
      show ((s.goOn i rest).rest j).run solo = _
      rw [State.goOn_rest_of_ne s rest hj]
      exact hrun
  rest_touched := by
    apply h.touched_goOn
    rw [hrest]
    exact List.subset_append_right _ _
  writer_touched := by
    intro f j hj
    by_cases hwritten : f ∈ c.written s.files
    · rw [s.act_writer_of_written i rest hwritten] at hj
      rw [← Option.some.inj hj]
      apply h.rest_touched i
      rw [hrest]
      exact List.mem_append_left _ (c.written_subset s.files hwritten)
    · rw [s.act_writer_of_not_written i rest hwritten] at hj
      exact h.writer_touched f j hj

/-- A clean test. -/
theorem Tracked.ifExists (h : Tracked scripts files s) {i : ι} {f : F} {yes no : Script F B}
    (hrest : s.rest i = .ifExists f yes no) (hclean : s.Clean i) :
    Tracked scripts files (s.goOn i (if (s.files f).isSome then yes else no)) where
  alone := by
    intro j
    obtain ⟨solo, hrun, hfiles⟩ := h.alone j
    refine ⟨solo, ?_, hfiles⟩
    by_cases hj : j = i
    · rw [hj] at hrun hfiles ⊢
      have hf : s.files f = solo f := by
        have := hclean.agree hfiles
        rw [State.nextReads, hrest] at this
        exact this f (List.mem_singleton_self f)
      rw [hrest, Script.run, ← hf] at hrun
      rw [State.goOn_rest_self]
      by_cases hsome : (s.files f).isSome
      · rw [if_pos hsome] at hrun ⊢
        exact hrun
      · rw [if_neg hsome] at hrun ⊢
        exact hrun
    · rw [State.goOn_rest_of_ne s _ hj]
      exact hrun
  rest_touched := by
    apply h.touched_goOn
    rw [hrest]
    split
    · exact List.subset_append_left _ _
    · exact List.subset_append_right _ _
  writer_touched := h.writer_touched

/-- A step of one script, on files that no other one wrote, is its step when it runs alone. -/
theorem Tracked.step {i : ι} (h : Tracked scripts files s) (hclean : s.Clean i)
    (ht : s.step i = some t) : Tracked scripts files t := by
  unfold State.step at ht
  match hrest : s.rest i with
  | .done =>
    rw [hrest] at ht
    cases ht
  | .act c rest =>
    rw [hrest] at ht
    exact Option.some.inj ht ▸ h.act hrest hclean
  | .ifExists f yes no =>
    rw [hrest] at ht
    exact Option.some.inj ht ▸ h.ifExists hrest hclean

/-- After a run of clean steps, a script that is done left what it would have left alone in the
files that no other script touches. -/
theorem files_eq_alone {as : List ι}
    (hclean : Meets State.step State.Clean (State.init scripts files) as)
    (hrun : run State.step (State.init scripts files) as = some s) {i : ι}
    (hdone : s.rest i = .done) {f : F} (hf : ∀ j, j ≠ i → f ∉ (scripts j).touched) :
    s.files f = (scripts i).run files f := by
  have h : Tracked scripts files s :=
    run_invariant_of_meets (fun s i t h hclean ht => h.step hclean ht)
      (Tracked.init scripts files) hclean hrun
  obtain ⟨solo, hsolo, hfiles⟩ := h.alone i
  rw [hdone, Script.run] at hsolo
  rw [← hsolo]
  apply hfiles
  cases hwriter : s.writer f with
  | none => exact Or.inl rfl
  | some j =>
    by_cases hj : j = i
    · exact Or.inr (congrArg some hj)
    · exact absurd (h.writer_touched f j hwriter) (hf j hj)

end Parallel
end PamoRxpBench
