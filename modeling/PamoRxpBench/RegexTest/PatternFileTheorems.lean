import PamoRxpBench.Data.SamplerCommandsTheorems
import PamoRxpBench.RegexTest.PatternTableTheorems

/-!
# The pattern file of Hyperscan

The file that `to_hyperscan` writes, as `hs_init_db` reads it: its lines that are not empty.
-/

namespace PamoRxpBench
namespace RegexTest

/-- A line is read up to its line feed, behind what was read of it before. -/
theorem getlines_append {l : Bytes} (h : 10 ∉ l) (cur bs : Bytes) :
    getlines cur (l ++ 10 :: bs) = (cur ++ l ++ [10]) :: getlines [] bs := by
  induction l generalizing cur with
  | nil => rw [List.nil_append, List.append_nil, getlines, if_pos rfl]
  | cons b l ih =>
    have hb : b ≠ 10 := Ne.symm (List.ne_of_not_mem_cons h)
    rw [List.cons_append, getlines, if_neg hb, ih (List.not_mem_of_not_mem_cons h),
      List.append_assoc cur, List.singleton_append]

/-- The lines of a written file are those that were written, each with its line feed. -/
theorem getlines_unlines {ls : List Bytes} (h : ∀ l ∈ ls, 10 ∉ l) :
    getlines [] (Utf8.unlines ls) = ls.map (· ++ [10]) := by
  induction ls with
  | nil => rfl
  | cons l ls ih =>
    rw [Utf8.unlines, List.flatMap_cons, List.append_assoc, List.singleton_append,
      getlines_append (h l List.mem_cons_self), List.nil_append]
    exact congrArg _ (ih fun l hl => h l (List.mem_cons_of_mem _ hl))

theorem terminated_unlines {ls : List Bytes} (h : ∀ l ∈ ls, 10 ∉ l) :
    Terminated (getlines [] (Utf8.unlines ls)) := by
  rw [getlines_unlines h]
  intro line hline
  obtain ⟨l, -, rfl⟩ := List.mem_map.mp hline
  exact List.getLast?_concat

/-- There is nothing behind the last line feed of a written file. -/
theorem splitOn_unlines {ls : List Bytes} (h : ∀ l ∈ ls, 10 ∉ l) :
    (Utf8.unlines ls).splitOn 10 = ls ++ [[]] := by
  have hsplit := splitOn_eq List.not_mem_nil (terminated_unlines h)
  have hlines : (ls.map (· ++ [10])).map List.dropLast = ls := by
    rw [List.map_map]
    refine (List.map_congr_left fun l _ => ?_).trans (List.map_id ls)
    exact List.dropLast_concat
  rwa [List.nil_append, getlines_unlines h, hlines] at hsplit

/-- Of the lines that were written, the empty ones are not read back. -/
theorem fileLines_unlines {ls : List Bytes} (h : ∀ l ∈ ls, 10 ∉ l) :
    fileLines (Utf8.unlines ls) = ls.filter fun l => l ≠ [] := by
  rw [fileLines, splitOn_unlines h, List.filter_append]
  exact List.append_nil _

/-- The table that is made from a file of lines: those that are not empty, in their order. -/
theorem fillTable_writeLines {lines : List Text} (hlines : ∀ l ∈ lines, Csv.IsLine l)
    (hnul : ∀ l ∈ lines, Char.ofNat 0 ∉ l) (hcount : lines.length < 2 ^ 32) (exprFlags : UInt32) :
    ∃ pass, fillTable (Data.writeLines lines) exprFlags = .compile pass ∧
      pass.table.expressions.take pass.expressionCount.toNat =
        (lines.filter fun l => l ≠ []).map fun l => some (Utf8.encode l) := by
  have hprinted : ∀ l ∈ Data.printedLines lines, Csv.IsLine l ∧ Char.ofNat 0 ∉ l :=
    Data.forall_mem_printedLines ⟨⟨List.not_mem_nil, List.not_mem_nil⟩, List.not_mem_nil⟩
      fun l hl => ⟨hlines l hl, hnul l hl⟩
  have hfeeds : ∀ b ∈ (Data.printedLines lines).map Utf8.encode, 10 ∉ b := by
    intro b hb
    obtain ⟨l, hl, rfl⟩ := List.mem_map.mp hb
    exact Utf8.lineFeed_not_mem_encode (hprinted l hl).1
  have hzero : 0 ∉ Data.writeLines lines := by
    rw [Data.writeLines_eq]
    refine Utf8.not_mem_encode (d := Char.ofNat 0) (by decide) rfl fun hmem => ?_
    obtain ⟨l, hl, hc⟩ := List.mem_flatMap.mp hmem
    rcases List.mem_append.mp hc with hc | hc
    · exact (hprinted l hl).2 hc
    · exact absurd (List.mem_singleton.mp hc) (by decide)
  have hlen : 0 < (Data.printedLines lines).length ∧
      (Data.printedLines lines).length < 2 ^ 32 := by
    unfold Data.printedLines
    split
    · exact ⟨by decide, by decide⟩
    · rename_i hne
      exact ⟨List.length_pos_of_ne_nil hne, hcount⟩
  rw [Data.writeLines_eq, Utf8.encode_unlines] at hzero ⊢
  have hlength := congrArg List.length (getlines_unlines hfeeds)
  rw [List.length_map, List.length_map] at hlength
  obtain ⟨pass, hpass, -, hexpressions, htable, -⟩ := exactTable_of_lt
    (terminated_unlines hfeeds) hzero (hlength ▸ hlen.1) (hlength ▸ hlen.2)
  refine ⟨pass, hpass, ?_⟩
  -- an empty list is printed as one blank line
  have hnonempty : (Data.printedLines lines).filter (fun l => l ≠ []) =
      lines.filter fun l => l ≠ [] := by
    unfold Data.printedLines
    split
    · rename_i hnil
      rw [hnil]
      rfl
    · rfl
  have hfilter : (fun l : Bytes => decide (l ≠ [])) ∘ Utf8.encode =
      fun l : Text => decide (l ≠ []) := by
    funext l
    exact decide_eq_decide.mpr (not_congr Utf8.encode_eq_nil_iff)
  rw [htable, fileLines_unlines hfeeds, List.filter_map, hfilter, hnonempty, List.map_map]
  rfl

end RegexTest
end PamoRxpBench
