import Mathlib.Data.List.DropRight
import PamoRxpBench.Library.Text

/-!
# Extensions of file names

`os.path.splitext` cuts a name at its last dot (`splitext_append`), unless only dots stand before
it. What is put in front of the extension leaves it the extension (`splitext_insert`).
-/

namespace PamoRxpBench
namespace Filename

/-- `os.path.splitext` of a name without `/`. Dots at the begin of the name start no extension. -/
def splitext (name : Text) : Text × Text :=
  let root := (name.rdropWhile (· ≠ '.')).dropLast
  if root.all (· = '.') then (name, []) else (root, '.' :: name.rtakeWhile (· ≠ '.'))

/-- The last place of a character. -/
theorem append_cons_inj {α : Type} {c : α} {a b a' b' : List α} (h : c ∉ b) (h' : c ∉ b')
    (heq : a ++ c :: b = a' ++ c :: b') : a = a' ∧ b = b' := by
  rcases List.append_eq_append_iff.mp heq with ⟨t, ha, hb⟩ | ⟨t, ha, hb⟩
  · cases t with
    | nil => exact ⟨by rw [ha, List.append_nil], (List.cons.inj hb).2⟩
    | cons x t =>
      refine absurd ?_ h
      rw [(List.cons.inj hb).2]
      exact List.mem_append_right t List.mem_cons_self
  · cases t with
    | nil => exact ⟨by rw [ha, List.append_nil], (List.cons.inj hb).2.symm⟩
    | cons x t =>
      refine absurd ?_ h'
      rw [(List.cons.inj hb).2]
      exact List.mem_append_right t List.mem_cons_self

/-- The extension begins at the last dot, unless only dots stand before it. -/
theorem splitext_append {root ext : Text} (hext : '.' ∉ ext) :
    splitext (root ++ '.' :: ext) =
      if root.all (· = '.') then (root ++ '.' :: ext, []) else (root, '.' :: ext) := by
  have hkept : ∀ c ∈ ext.reverse, decide (c ≠ '.') = true := fun c hc =>
    decide_eq_true fun h => hext (h ▸ List.mem_reverse.mp hc)
  have hdrop : (root ++ '.' :: ext).rdropWhile (· ≠ '.') = root ++ ['.'] := by
    rw [List.rdropWhile, List.reverse_append, List.reverse_cons, List.append_assoc,
      List.dropWhile_append_of_pos hkept]
    simp
  have htake : (root ++ '.' :: ext).rtakeWhile (· ≠ '.') = ext := by
    rw [List.rtakeWhile, List.reverse_append, List.reverse_cons, List.append_assoc,
      List.takeWhile_append_of_pos hkept]
    simp
  unfold splitext
  rw [hdrop, htake, List.dropLast_concat]

theorem splitext_of_not_mem {name : Text} (h : '.' ∉ name) : splitext name = (name, []) := by
  have hdrop : name.rdropWhile (· ≠ '.') = [] := by
    rw [List.rdropWhile_eq_nil_iff]
    exact fun c hc => decide_eq_true fun heq => h (heq ▸ hc)
  unfold splitext
  rw [hdrop]
  rfl

/-- The last element that satisfies a predicate. -/
theorem exists_last {α : Type} {p : α → Prop} {l : List α} (h : ∃ x ∈ l, p x) :
    ∃ a x b, l = a ++ x :: b ∧ p x ∧ ∀ y ∈ b, ¬ p y := by
  induction l using List.reverseRecOn with
  | nil =>
    obtain ⟨x, hx, _⟩ := h
    exact absurd hx List.not_mem_nil
  | append_singleton l z ih =>
    by_cases hz : p z
    · exact ⟨l, z, [], rfl, hz, fun y hy => absurd hy List.not_mem_nil⟩
    · obtain ⟨x, hx, hpx⟩ := h
      rcases List.mem_append.mp hx with hx | hx
      · obtain ⟨a, x, b, rfl, hpx, hb⟩ := ih ⟨x, hx, hpx⟩
        refine ⟨a, x, b ++ [z], List.append_assoc a (x :: b) [z], hpx, fun y hy => ?_⟩
        rcases List.mem_append.mp hy with hy | hy
        · exact hb y hy
        · rw [List.mem_singleton.mp hy]
          exact hz
      · rw [List.mem_singleton.mp hx] at hpx
        exact absurd hpx hz

theorem exists_last_dot {name : Text} (h : '.' ∈ name) :
    ∃ root ext, name = root ++ '.' :: ext ∧ '.' ∉ ext := by
  obtain ⟨root, c, ext, hname, rfl, hext⟩ := exists_last ⟨'.', h, rfl⟩
  exact ⟨root, ext, hname, fun hmem => hext '.' hmem rfl⟩

/-- The parts of a name make it up. -/
theorem splitext_fst_append_snd (name : Text) : (splitext name).1 ++ (splitext name).2 = name := by
  by_cases h : '.' ∈ name
  · obtain ⟨root, ext, rfl, hext⟩ := exists_last_dot h
    rw [splitext_append hext]
    split
    · exact List.append_nil _
    · rfl
  · rw [splitext_of_not_mem h]
    exact List.append_nil name

/-- What stands before the extension belongs to the root. -/
theorem splitext_insert (name : Text) {s : Text} (hne : s ≠ []) (hdot : '.' ∉ s) :
    splitext ((splitext name).1 ++ s ++ (splitext name).2) =
      ((splitext name).1 ++ s, (splitext name).2) := by
  by_cases h : '.' ∈ name
  · obtain ⟨root, ext, rfl, hext⟩ := exists_last_dot h
    rw [splitext_append hext]
    split
    · -- the dots at the begin of the name still are
      rename_i hdots
      have hext' : '.' ∉ ext ++ s := fun hmem => (List.mem_append.mp hmem).elim hext hdot
      rw [List.append_nil, List.append_assoc, List.cons_append, splitext_append hext', if_pos hdots]
    · rw [splitext_append hext, if_neg]
      intro hdots
      obtain ⟨c, hc⟩ := List.exists_mem_of_ne_nil s hne
      have hcdot := of_decide_eq_true
        (List.all_eq_true.mp hdots c (List.mem_append_right root hc))
      exact hdot (hcdot ▸ hc)
  · rw [splitext_of_not_mem h, List.append_nil]
    exact splitext_of_not_mem fun hmem => (List.mem_append.mp hmem).elim h hdot

end Filename
end PamoRxpBench
