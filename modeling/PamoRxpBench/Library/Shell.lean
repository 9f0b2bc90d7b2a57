import Mathlib.Logic.Function.Basic
import Mathlib.Tactic.Basic

/-!
# Shell scripts on a map of files

A directory is a map from file names to contents. The commands are those of a script that
stages files: copying, moving, removing, and running a tool on one file to make another, with
an output file of its own (`tool`) or behind a redirection (`redirect`, `append`). A command
whose input is missing fails: it leaves its output alone, unless the shell had already opened
it. Nothing stops at a failure.

A script is a sequence of such commands, each one atomic, and tests for the existence of a
file (`Script`). `run_andThen` runs a concatenation, `run_eq_of_untouched` is the frame rule:
what no command of a script touches is as it was.
-/

namespace PamoRxpBench
namespace Shell

/-- A directory: the contents of the files that exist. -/
abbrev Files (F B : Type) := F → Option (List B)

variable {F B : Type} [DecidableEq F]

/-- The empty directory. -/
def Files.empty : Files F B := fun _ => none

/-- The text of a file, empty if it is missing. -/
def Files.text (s : Files F B) (f : F) : List B := (s f).getD []

/-- Create or overwrite a file. -/
def Files.write (s : Files F B) (f : F) (c : List B) : Files F B := Function.update s f (some c)

@[simp] theorem Files.write_self (s : Files F B) (f : F) (c : List B) :
    s.write f c f = some c := by
  rw [write, Function.update_self]

theorem Files.write_of_ne (s : Files F B) {f g : F} (c : List B) (h : g ≠ f) :
    s.write f c g = s g := by
  rw [write, Function.update_of_ne h]

/-! ## Commands -/

/-- One command of a script. -/
inductive Command (F B : Type)
  /-- A tool without an input file that writes `out`, unless it fails. -/
  | make (out : F) (c : Option (List B))
  /-- A tool that reads `src` and writes `out`, unless it fails. -/
  | tool (src out : F) (t : List B → Option (List B))
  /-- `t src > out`. -/
  | redirect (src out : F) (t : List B → List B)
  /-- `cat src >> out`. -/
  | append (src out : F)
  | cp (src dst : F)
  | mv (src dst : F)
  | rm (f : F)

/-- What a command does to the directory. -/
def Command.exec (s : Files F B) : Command F B → Files F B
  | .make out c =>
    match c with
    | some c => s.write out c
    | none => s
  | .tool src out t =>
    match (s src).bind t with
    | some c => s.write out c
    | none => s
  | .redirect src out t =>
    match s src with
    | some c => s.write out (t c)
    | none => s.write out []  -- opened by the shell before the tool fails
  | .append src out => s.write out (s.text out ++ s.text src)
  | .cp src dst =>
    match s src with
    | some c => s.write dst c
    | none => s
  | .mv src dst =>
    match s src with
    | some c => Function.update (s.write dst c) src none
    | none => s
  | .rm f => Function.update s f none

/-- The files a command may change. -/
def Command.touched : Command F B → List F
  | .make out _ => [out]
  | .tool _ out _ => [out]
  | .redirect _ out _ => [out]
  | .append _ out => [out]
  | .cp _ dst => [dst]
  | .mv src dst => [src, dst]
  | .rm f => [f]

/-- A command leaves the other files alone. -/
theorem Command.exec_of_not_touched (s : Files F B) (c : Command F B) {f : F}
    (h : f ∉ c.touched) : c.exec s f = s f := by
  cases c with
  | make out c =>
    cases c with
    | none => rfl
    | some c => exact s.write_of_ne c (List.ne_of_not_mem_cons h)
  | tool src out t =>
    simp only [exec]
    cases (s src).bind t with
    | none => rfl
    | some c => exact s.write_of_ne c (List.ne_of_not_mem_cons h)
  | redirect src out t =>
    simp only [exec]
    cases s src with
    | none => exact s.write_of_ne [] (List.ne_of_not_mem_cons h)
    | some c => exact s.write_of_ne (t c) (List.ne_of_not_mem_cons h)
  | append src out => exact s.write_of_ne _ (List.ne_of_not_mem_cons h)
  | cp src dst =>
    simp only [exec]
    cases s src with
    | none => rfl
    | some c => exact s.write_of_ne c (List.ne_of_not_mem_cons h)
  | mv src dst =>
    simp only [touched, List.mem_cons, List.not_mem_nil, or_false, not_or] at h
    simp only [exec]
    cases s src with
    | none => rfl
    | some c => exact (Function.update_of_ne h.1 none _).trans (s.write_of_ne c h.2)
  | rm g => exact Function.update_of_ne (List.ne_of_not_mem_cons h) none s

/-! ## What a command reads and writes -/

/-- The files whose contents a command depends on. -/
def Command.reads : Command F B → List F
  | .make _ _ => []
  | .tool src _ _ => [src]
  | .redirect src _ _ => [src]
  | .append src out => [src, out]
  | .cp src _ => [src]
  | .mv src _ => [src]
  | .rm _ => []

/-- The files a command writes or removes in a directory. -/
def Command.written (s : Files F B) : Command F B → List F
  | .make out c => if c.isSome then [out] else []
  | .tool src out t => if ((s src).bind t).isSome then [out] else []
  | .redirect _ out _ => [out]
  | .append _ out => [out]
  | .cp src dst => if (s src).isSome then [dst] else []
  | .mv src dst => if (s src).isSome then [src, dst] else []
  | .rm f => [f]

omit [DecidableEq F] in
theorem Command.written_subset (s : Files F B) (c : Command F B) : c.written s ⊆ c.touched := by
  have hite : ∀ (p : Bool) (fs : List F), (if p then fs else []) ⊆ fs := by
    intro p fs
    cases p with
    | false => exact List.nil_subset fs
    | true => exact List.Subset.refl fs
  cases c with
  | make out c => exact hite _ _
  | tool src out t => exact hite _ _
  | redirect src out t => exact List.Subset.refl _
  | append src out => exact List.Subset.refl _
  | cp src dst => exact hite _ _
  | mv src dst => exact hite _ _
  | rm f => exact List.Subset.refl _

/-- A command leaves alone what it does not write. -/
theorem Command.exec_of_not_written (s : Files F B) (c : Command F B) {f : F}
    (h : f ∉ c.written s) : c.exec s f = s f := by
  by_cases htouched : f ∈ c.touched
  · cases c with
    | make out c =>
      cases c with
      | none => rfl
      | some c => exact absurd htouched h
    | tool src out t =>
      simp only [written, exec] at h ⊢
      cases hc : (s src).bind t with
      | none => rfl
      | some c =>
        rw [hc] at h
        exact absurd htouched h
    | redirect src out t => exact absurd htouched h
    | append src out => exact absurd htouched h
    | cp src dst =>
      simp only [written, exec] at h ⊢
      cases hc : s src with
      | none => rfl
      | some c =>
        rw [hc] at h
        exact absurd htouched h
    | mv src dst =>
      simp only [written, exec] at h ⊢
      cases hc : s src with
      | none => rfl
      | some c =>
        rw [hc] at h
        exact absurd htouched h
    | rm g => exact absurd htouched h
  · exact c.exec_of_not_touched s htouched

omit [DecidableEq F] in
/-- Two directories in which a command reads the same. -/
theorem Command.written_congr {s s' : Files F B} (c : Command F B)
    (h : ∀ f ∈ c.reads, s f = s' f) : c.written s = c.written s' := by
  cases c with
  | make out c => rfl
  | tool src out t => rw [written, written, h src List.mem_cons_self]
  | redirect src out t => rfl
  | append src out => rfl
  | cp src dst => rw [written, written, h src List.mem_cons_self]
  | mv src dst => rw [written, written, h src List.mem_cons_self]
  | rm f => rfl

/-- A text is written into both, or none is. -/
theorem Files.write_congr (s s' : Files F B) (out : F) {f : F} :
    ∀ o : Option (List B), f ∈ (if o.isSome then [out] else []) →
      (match o with | some c => s.write out c | none => s) f =
        (match o with | some c => s'.write out c | none => s') f
  | none, hf => absurd hf List.not_mem_nil
  | some c, hf => by
    show s.write out c f = s'.write out c f
    rw [List.mem_singleton.mp hf, write_self, write_self]

/-- It writes the same into both. -/
theorem Command.exec_congr {s s' : Files F B} (c : Command F B) (h : ∀ f ∈ c.reads, s f = s' f)
    {f : F} (hf : f ∈ c.written s) : c.exec s f = c.exec s' f := by
  cases c with
  | make out c => exact s.write_congr s' out c hf
  | tool src out t =>
    simp only [exec, written, h src List.mem_cons_self] at hf ⊢
    exact s.write_congr s' out ((s' src).bind t) hf
  | redirect src out t =>
    simp only [exec, h src List.mem_cons_self]
    cases s' src with
    | none => exact s.write_congr s' out (some []) hf
    | some c => exact s.write_congr s' out (some (t c)) hf
  | append src out =>
    have htext : s.text out ++ s.text src = s'.text out ++ s'.text src := by
      rw [Files.text, Files.text, Files.text, Files.text, h src List.mem_cons_self,
        h out (List.mem_cons_of_mem _ List.mem_cons_self)]
    simp only [exec, htext]
    exact s.write_congr s' out (some _) hf
  | cp src dst =>
    simp only [exec, written, h src List.mem_cons_self] at hf ⊢
    exact s.write_congr s' dst (s' src) hf
  | mv src dst =>
    simp only [exec, written, h src List.mem_cons_self] at hf ⊢
    cases hc : s' src with
    | none =>
      rw [hc] at hf
      exact absurd hf List.not_mem_nil
    | some c =>
      rw [hc] at hf
      -- the source is gone, and what is left is the copy
      by_cases hsrc : f = src
      · simp only [hsrc, Function.update_self]
      · simp only [Function.update_of_ne hsrc]
        exact s.write_congr s' dst (some c) (List.mem_of_ne_of_mem hsrc hf)
  | rm g =>
    rw [List.mem_singleton.mp hf]
    simp only [exec, Function.update_self]

/-! ## Scripts -/

/-- A script: commands, and tests for the existence of a file. -/
inductive Script (F B : Type)
  | done
  | act (c : Command F B) (rest : Script F B)
  | ifExists (f : F) (yes no : Script F B)

namespace Script

/-- Run a script. -/
def run : Script F B → Files F B → Files F B
  | done, s => s
  | act c rest, s => rest.run (c.exec s)
  | ifExists f yes no, s => if (s f).isSome then yes.run s else no.run s

/-- One script after another. -/
def andThen : Script F B → Script F B → Script F B
  | done, q => q
  | act c rest, q => act c (rest.andThen q)
  | ifExists f yes no, q => ifExists f (yes.andThen q) (no.andThen q)

/-- A list of commands. -/
def acts : List (Command F B) → Script F B
  | [] => done
  | c :: cs => act c (acts cs)

/-- Two scripts one after the other run one after the other. -/
theorem run_andThen (p q : Script F B) (s : Files F B) :
    (p.andThen q).run s = q.run (p.run s) := by
  induction p generalizing s with
  | done => rfl
  | act c rest ih => exact ih (c.exec s)
  | ifExists f yes no ihy ihn =>
    simp only [andThen, run]
    split
    · exact ihy s
    · exact ihn s

theorem run_acts_append (cs ds : List (Command F B)) (s : Files F B) :
    (acts (cs ++ ds)).run s = (acts ds).run ((acts cs).run s) := by
  induction cs generalizing s with
  | nil => rfl
  | cons c cs ih => exact ih (c.exec s)

/-- The files a script may change. -/
def touched : Script F B → List F
  | done => []
  | act c rest => c.touched ++ rest.touched
  | ifExists _ yes no => yes.touched ++ no.touched

omit [DecidableEq F] in
theorem touched_acts (cs : List (Command F B)) :
    (acts cs).touched = cs.flatMap Command.touched := by
  induction cs with
  | nil => rfl
  | cons c cs ih => rw [acts, touched, ih, List.flatMap_cons]

omit [DecidableEq F] in
theorem mem_touched_andThen {p q : Script F B} {f : F} (h : f ∈ (p.andThen q).touched) :
    f ∈ p.touched ∨ f ∈ q.touched := by
  induction p with
  | done => exact Or.inr h
  | act c rest ih =>
    rcases List.mem_append.mp h with h | h
    · exact Or.inl (List.mem_append_left _ h)
    · exact (ih h).imp_left (List.mem_append_right _)
  | ifExists g yes no ihy ihn =>
    rcases List.mem_append.mp h with h | h
    · exact (ihy h).imp_left (List.mem_append_left _)
    · exact (ihn h).imp_left (List.mem_append_right _)

/-- A script leaves the other files alone. -/
theorem run_eq_of_untouched (p : Script F B) (s : Files F B) {f : F} (h : f ∉ p.touched) :
    p.run s f = s f := by
  induction p generalizing s with
  | done => rfl
  | act c rest ih =>
    simp only [touched, List.mem_append, not_or] at h
    exact (ih (c.exec s) h.2).trans (c.exec_of_not_touched s h.1)
  | ifExists g yes no ihy ihn =>
    simp only [touched, List.mem_append, not_or] at h
    simp only [run]
    split
    · exact ihy s h.1
    · exact ihn s h.2

/-- A list of commands leaves the other files alone. -/
theorem run_acts_of_untouched (cs : List (Command F B)) (s : Files F B) {f : F}
    (h : ∀ c ∈ cs, f ∉ c.touched) : (acts cs).run s f = s f := by
  refine run_eq_of_untouched _ s ?_
  rw [touched_acts]
  intro hf
  obtain ⟨c, hc, hfc⟩ := List.mem_flatMap.mp hf
  exact h c hc hfc

end Script
end Shell
end PamoRxpBench
