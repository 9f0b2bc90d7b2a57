import PamoRxpBench.Data.RuleSubsets
import Mathlib.Algebra.Order.BigOperators.Group.List
import Mathlib.Algebra.BigOperators.Ring.Finset
import Mathlib.Data.List.TakeDrop

/-!
# The subsets of `rules_to_subsets`

Whatever the counts are, the slices that are written are consecutive and cover the file
(`flatMap_writeSubsets`), and the file is read back (`subsetsOf_subsetsFile`). Their sizes are the
exact ones as long as no product of a ratio and the number of rules is rounded across an integer
(`rulesToSubsets_partition_iff`).
-/

namespace PamoRxpBench
namespace Data

open Binary64

/-! ## Reading the file -/

/-- A rule of an input file: a line that is not a header. -/
def IsSubsetRule (rule : Text) : Prop :=
  ∃ l, rule = l ++ ['\n'] ∧ Csv.IsLine l ∧ subsetIdOf l = none

/-- The sections of a file, cut at its headers. -/
def subsetsOf (file : Text) : List (ℕ × List Text) :=
  (cutSubsets (Csv.lines file)).2.map fun s => (s.1, s.2.map fun l => l ++ ['\n'])

theorem subsetIdOf_header (i : ℕ) : subsetIdOf (subsetKey ++ Text.decimal i) = some i := by
  have hprefix : subsetKey.isPrefixOf (subsetKey ++ Text.decimal i) = true :=
    List.isPrefixOf_iff_prefix.mpr (List.prefix_append _ _)
  rw [subsetIdOf, if_pos hprefix, List.drop_left, Text.readDigits_decimal]

theorem isLine_header (i : ℕ) : Csv.IsLine (subsetKey ++ Text.decimal i) := by
  have hdigits : ∀ d : Char, d.isDigit = false → d ∉ Text.decimal i := fun d hd hmem =>
    Text.ne_of_isDigit (Text.isDigit_of_mem_decimal hmem) hd rfl
  constructor
  · exact List.not_mem_append (by decide) (hdigits _ (by decide))
  · exact List.not_mem_append (by decide) (hdigits _ (by decide))

/-- The lines of the sections. -/
def subsetsLines (subsets : List (ℕ × List Text)) : List Text :=
  subsets.flatMap fun s => (subsetKey ++ Text.decimal s.1) :: s.2

theorem cutSubsets_rules {ls : List Text} (h : ∀ l ∈ ls, subsetIdOf l = none) (rest : List Text) :
    cutSubsets (ls ++ rest) = (ls ++ (cutSubsets rest).1, (cutSubsets rest).2) := by
  induction ls with
  | nil => rfl
  | cons l ls ih =>
    rw [List.cons_append, cutSubsets, h l List.mem_cons_self,
      ih fun l hl => h l (List.mem_cons_of_mem _ hl)]
    rfl

/-- The subsets are read back from the file, if no rule looks like a header. -/
theorem cutSubsets_subsetsLines {subsets : List (ℕ × List Text)}
    (h : ∀ s ∈ subsets, ∀ l ∈ s.2, subsetIdOf l = none) :
    cutSubsets (subsetsLines subsets) = ([], subsets) := by
  induction subsets with
  | nil => rfl
  | cons s subsets ih =>
    have hrest := ih fun s hs => h s (List.mem_cons_of_mem _ hs)
    have hrules := cutSubsets_rules (h s List.mem_cons_self) (subsetsLines subsets)
    rw [hrest, List.append_nil] at hrules
    show cutSubsets ((subsetKey ++ Text.decimal s.1) :: (s.2 ++ subsetsLines subsets)) = _
    rw [cutSubsets, subsetIdOf_header, hrules]

/-- The rules of a section without their ends. -/
theorem exists_lines {rules : List Text} (h : ∀ rule ∈ rules, IsSubsetRule rule) :
    ∃ ls : List Text, rules = ls.map (fun l => l ++ ['\n']) ∧
      (∀ l ∈ ls, Csv.IsLine l) ∧ ∀ l ∈ ls, subsetIdOf l = none := by
  induction rules with
  | nil =>
    exact ⟨[], rfl, fun _ h => absurd h List.not_mem_nil, fun _ h => absurd h List.not_mem_nil⟩
  | cons rule rules ih =>
    obtain ⟨l, hl, hline, hid⟩ := h rule List.mem_cons_self
    obtain ⟨ls, hls, hlines, hids⟩ := ih fun r hr => h r (List.mem_cons_of_mem _ hr)
    exact ⟨l :: ls, by rw [hl, hls, List.map_cons], List.forall_mem_cons.mpr ⟨hline, hlines⟩,
      List.forall_mem_cons.mpr ⟨hid, hids⟩⟩

theorem exists_sections {subsets : List (ℕ × List Text)}
    (h : ∀ s ∈ subsets, ∀ rule ∈ s.2, IsSubsetRule rule) :
    ∃ sections : List (ℕ × List Text),
      subsets = sections.map (fun s => (s.1, s.2.map fun l => l ++ ['\n'])) ∧
      (∀ s ∈ sections, ∀ l ∈ s.2, Csv.IsLine l) ∧
      ∀ s ∈ sections, ∀ l ∈ s.2, subsetIdOf l = none := by
  induction subsets with
  | nil =>
    exact ⟨[], rfl, fun _ h => absurd h List.not_mem_nil, fun _ h => absurd h List.not_mem_nil⟩
  | cons s subsets ih =>
    obtain ⟨i, rules⟩ := s
    obtain ⟨ls, rfl, hlines, hids⟩ := exists_lines (h _ List.mem_cons_self)
    obtain ⟨sections, rfl, hlines', hids'⟩ := ih fun s hs => h s (List.mem_cons_of_mem _ hs)
    exact ⟨(i, ls) :: sections, rfl, List.forall_mem_cons.mpr ⟨hlines, hlines'⟩,
      List.forall_mem_cons.mpr ⟨hids, hids'⟩⟩

/-- The sections that are written are read back, with nothing before them. -/
theorem subsetsOf_subsetsFile {subsets : List (ℕ × List Text)}
    (h : ∀ s ∈ subsets, ∀ rule ∈ s.2, IsSubsetRule rule) :
    (cutSubsets (Csv.lines (subsetsFile subsets))).1 = [] ∧
      subsetsOf (subsetsFile subsets) = subsets := by
  obtain ⟨sections, rfl, hlines, hids⟩ := exists_sections h
  have hfile : subsetsFile (sections.map fun s => (s.1, s.2.map fun l => l ++ ['\n'])) =
      Csv.unlines (subsetsLines sections) := by
    rw [subsetsFile, List.flatMap_map, Csv.unlines, subsetsLines, List.flatMap_assoc]
    refine List.flatMap_congr fun s _ => ?_
    rw [List.flatMap_cons, List.append_assoc, List.append_assoc, List.append_assoc,
      ← List.flatMap_def]
    rfl
  have hread : Csv.lines (subsetsFile (sections.map fun s =>
      (s.1, s.2.map fun l => l ++ ['\n']))) = subsetsLines sections := by
    rw [hfile]
    refine Csv.lines_unlines fun l hl => ?_
    obtain ⟨s, hs, hl⟩ := List.mem_flatMap.mp hl
    rcases List.mem_cons.mp hl with rfl | hl
    · exact isLine_header s.1
    · exact hlines s hs l hl
  rw [subsetsOf, hread, cutSubsets_subsetsLines hids]
  exact ⟨rfl, rfl⟩

/-! ## The slices -/

variable {rules : List Text}

theorem pySlice_natCast (rules : List Text) (a b : ℕ) :
    pySlice rules a b = (rules.take b).drop a := by
  have hclamp : ∀ i : ℕ, (if (i : ℤ) < 0 then (i : ℤ) + rules.length else i).toNat = i := by
    intro i
    rw [if_neg (by omega), Int.toNat_natCast]
  simp only [pySlice, hclamp]

theorem length_pySlice (rules : List Text) (start count : ℕ) :
    (pySlice rules start (start + count : ℕ)).length = min count (rules.length - start) := by
  rw [pySlice_natCast, List.length_drop, List.length_take]
  omega

theorem pySlice_append_drop (rules : List Text) (start count : ℕ) :
    pySlice rules start (start + count : ℕ) ++ rules.drop (start + count) = rules.drop start := by
  rw [pySlice_natCast, ← List.drop_drop, List.drop_take, Nat.add_sub_cancel_left,
    List.take_append_drop]

theorem writeSubsets_cons (rules : List Text) (i start count : ℕ) (counts : List ℤ) :
    writeSubsets rules i start (count :: counts) =
      (i, pySlice rules start (start + count : ℕ)) ::
        writeSubsets rules (i + 1) (start + count : ℕ) counts := by
  rw [writeSubsets, Nat.cast_add]

theorem writeSubsets_concat (rules : List Text) (i start : ℕ) (counts : List ℕ) (d : ℤ) :
    writeSubsets rules i start (counts.map (fun c : ℕ => (c : ℤ)) ++ [d]) =
      writeSubsets rules i start (counts.map fun c : ℕ => (c : ℤ)) ++
        [(i + counts.length, pySlice rules (start + counts.sum : ℕ)
          ((start + counts.sum : ℕ) + d))] := by
  induction counts generalizing i start with
  | nil => rfl
  | cons c counts ih =>
    rw [List.map_cons, List.cons_append, writeSubsets_cons, writeSubsets_cons, ih, List.cons_append,
      List.length_cons, List.sum_cons, ← Nat.add_assoc start, Nat.add_assoc i, Nat.add_comm 1]

/-- The last count is what is left, so the slices cover the file, even if it is negative. -/
theorem flatMap_writeSubsets (rules : List Text) (i start : ℕ) (counts : List ℕ) :
    (writeSubsets rules i start (counts.map (fun c : ℕ => (c : ℤ)) ++
      [(rules.length : ℤ) - (start + counts.sum : ℕ)])).flatMap Prod.snd = rules.drop start := by
  induction counts generalizing i start with
  | nil =>
    have hend : (start : ℤ) + ((rules.length : ℤ) - (start + 0 : ℕ)) = rules.length := by
      push_cast
      omega
    show pySlice rules start _ ++ [] = _
    rw [List.sum_nil, hend, List.append_nil, pySlice_natCast, List.take_length]
  | cons c counts ih =>
    have hrest := ih (i + 1) (start + c)
    rw [List.map_cons, List.cons_append, writeSubsets_cons, List.flatMap_cons, List.sum_cons,
      ← Nat.add_assoc, hrest]
    exact pySlice_append_drop rules start c

/-- The rules of a section are rules of the file. -/
theorem mem_of_mem_writeSubsets {i : ℕ} {start : ℤ} {counts : List ℤ} {s : ℕ × List Text}
    (hs : s ∈ writeSubsets rules i start counts) {rule : Text} (h : rule ∈ s.2) : rule ∈ rules := by
  induction counts generalizing i start with
  | nil => exact absurd hs List.not_mem_nil
  | cons c counts ih =>
    rcases List.mem_cons.mp hs with rfl | hs
    · exact List.mem_of_mem_take (List.mem_of_mem_drop h)
    · exact ih hs

theorem length_addToLast (counts : List ℤ) (d : ℤ) :
    (addToLast counts d).length = counts.length := by
  induction counts with
  | nil => rfl
  | cons c cs ih =>
    cases cs with
    | nil => rfl
    | cons c' cs =>
      show (addToLast (c' :: cs) d).length + 1 = _
      rw [ih]
      rfl

/-- The headers are numbered from 1 on. -/
theorem writeSubsets_headers (rules : List Text) (i : ℕ) (start : ℤ) (counts : List ℤ) :
    (writeSubsets rules i start counts).map Prod.fst = List.range' i counts.length := by
  induction counts generalizing i start with
  | nil => rfl
  | cons c cs ih => rw [writeSubsets, List.map_cons, ih, List.length_cons, List.range'_succ]

/-- The last subset gets the difference. -/
theorem addToLast_concat (counts : List ℤ) (c d : ℤ) :
    addToLast (counts ++ [c]) d = counts ++ [c + d] := by
  induction counts with
  | nil => rfl
  | cons e counts ih =>
    match counts with
    | [] => rfl
    | f :: counts =>
      show e :: addToLast (f :: counts ++ [c]) d = _
      rw [ih]
      rfl

/-! ## The counts -/

/-- The whole rules in the share `q` of `n`. -/
def exactCount (n : ℕ) (q : ℚ) : ℕ := ⌊q * n⌋₊

/-- What `int(ratio * total_rules)` is for the number `total` nearest to `total_rules`. -/
def roundedCount (total q : ℚ) : ℕ := ⌊nearest (nearest q * total)⌋₊

/-- No product of a ratio but the last and the number of rules `n` is rounded across an integer,
unless no rules are left for the ratios after it. `left` is the number of rules that are left. -/
def NotAcross (total : ℚ) (n : ℕ) : ℕ → List ℚ → Prop
  | left, q :: q' :: ratios =>
    Reaches (nearest q * total) (exactCount n q) ∧
    (Reaches (nearest q * total) (exactCount n q + 1) → exactCount n q = left) ∧
    NotAcross total n (left - exactCount n q) (q' :: ratios)
  | _, _ => True

theorem le_roundedCount_iff {total q : ℚ} (htotal : 0 ≤ total) (hq : 0 ≤ q) (k : ℕ) :
    k ≤ roundedCount total q ↔ Reaches (nearest q * total) k := by
  have hnonneg := nearest_nonneg (mul_nonneg (nearest_nonneg hq) htotal)
  rw [roundedCount, Nat.le_floor_iff hnonneg, ← le_nearest_iff, Int.cast_natCast]

/-- The sections of the counts have the exact sizes if no product is rounded across an integer. -/
theorem sizes_eq_iff {total : ℚ} (htotal : 0 ≤ total) {ratios : List ℚ}
    (hratios : ∀ q ∈ ratios, 0 ≤ q)
    (n i start : ℕ) (hsum : (ratios.dropLast.map (exactCount n)).sum ≤ rules.length - start) :
    (writeSubsets rules i start ((ratios.dropLast.map (roundedCount total)).map
        fun c : ℕ => (c : ℤ))).map (fun s => s.2.length) = ratios.dropLast.map (exactCount n) ↔
      NotAcross total n (rules.length - start) ratios := by
  induction ratios generalizing i start with
  | nil => exact iff_of_true rfl trivial
  | cons q ratios ih =>
    match ratios with
    | [] => exact iff_of_true rfl trivial
    | q' :: ratios =>
      have hq := hratios q List.mem_cons_self
      have hreaches := le_roundedCount_iff htotal hq
      rw [List.dropLast_cons_cons, List.map_cons, List.sum_cons] at hsum
      rw [List.dropLast_cons_cons, List.map_cons, List.map_cons, List.map_cons, writeSubsets_cons,
        List.map_cons, List.cons.injEq, length_pySlice, NotAcross, ← hreaches, ← Nat.cast_succ,
        ← hreaches]
      have hrest := ih (fun q hq => hratios q (List.mem_cons_of_mem _ hq)) (i + 1)
        (start + roundedCount total q)
      constructor
      · intro ⟨hsize, hsizes⟩
        have hleft : rules.length - start - exactCount n q =
            rules.length - (start + roundedCount total q) := by
          omega
        rw [hleft]
        exact ⟨by omega, by omega, (hrest (by omega)).mp hsizes⟩
      · intro ⟨hle, hlast, hacross⟩
        have hleft : rules.length - start - exactCount n q =
            rules.length - (start + roundedCount total q) := by
          omega
        rw [hleft] at hacross
        exact ⟨by omega, (hrest (by omega)).mpr hacross⟩

/-- The counts without rounding are at most their share of the rules. -/
theorem sum_exactCount_le {n : ℕ} {ratios : List ℚ} (h : ∀ q ∈ ratios, 0 ≤ q) :
    ((ratios.map (exactCount n)).sum : ℚ) ≤ ratios.sum * n := by
  induction ratios with
  | nil => simp
  | cons q ratios ih =>
    have hfloor : (exactCount n q : ℚ) ≤ q * n :=
      Nat.floor_le (mul_nonneg (h q List.mem_cons_self) n.cast_nonneg)
    have hrest := ih fun q hq => h q (List.mem_cons_of_mem _ hq)
    rw [List.map_cons, List.sum_cons, List.sum_cons, Nat.cast_add, add_mul]
    exact add_le_add hfloor hrest

theorem le_sum_exactCount (n : ℕ) (ratios : List ℚ) :
    ratios.sum * n ≤ (ratios.map (exactCount n)).sum + ratios.length := by
  induction ratios with
  | nil => simp
  | cons q ratios ih =>
    have hfloor : q * n < exactCount n q + 1 := Nat.lt_floor_add_one _
    rw [List.map_cons, List.sum_cons, List.sum_cons, List.length_cons, Nat.cast_add, Nat.cast_succ]
    linarith

theorem lt_sum_exactCount (n : ℕ) {ratios : List ℚ} (h : ratios ≠ []) :
    ratios.sum * n < (ratios.map (exactCount n)).sum + ratios.length := by
  obtain ⟨q, ratios, rfl⟩ := List.exists_cons_of_ne_nil h
  have hfloor : q * n < exactCount n q + 1 := Nat.lt_floor_add_one _
  have hrest := le_sum_exactCount n ratios
  rw [List.map_cons, List.sum_cons, List.sum_cons, List.length_cons, Nat.cast_add, Nat.cast_succ]
  linarith

/-! ## `rules_to_subsets` -/

/-- The ratios that a string denotes. -/
def readRatios (ratioStr : Text) : Option (List ℚ) := do
  let fields ← Text.split [':'] ratioStr
  fields.mapM readDecimal

/-- Ratios of a whole. -/
structure IsRatios (ratios : List ℚ) : Prop where
  nonneg : ∀ q ∈ ratios, 0 ≤ q
  sum : ratios.sum = 1

theorem IsRatios.le_one {ratios : List ℚ} (h : IsRatios ratios) : ∀ q ∈ ratios, q ≤ 1 :=
  fun _ hq => h.sum ▸ List.single_le_sum h.nonneg _ hq

theorem IsRatios.ne_nil {ratios : List ℚ} (h : IsRatios ratios) : ratios ≠ [] := by
  intro hnil
  have hsum := h.sum
  rw [hnil] at hsum
  exact absurd hsum (by decide)

theorem ofRat_ratio {q : ℚ} (hnonneg : 0 ≤ q) (hle : q ≤ 1) : ofRat q = some (nearest q) :=
  ofRat_of_le hnonneg isNumber_one (one_lt_pow₀ one_lt_two (by omega)) hle

/-- Ratios from 0 to 1 are read as the nearest floats. -/
theorem mapM_float {fields : List Text} {ratios : List ℚ}
    (h : fields.mapM readDecimal = some ratios)
    (hratios : ∀ q ∈ ratios, 0 ≤ q ∧ q ≤ 1) :
    fields.mapM binary64.float = some (ratios.map nearest) := by
  induction fields generalizing ratios with
  | nil =>
    obtain rfl := Option.some.inj h
    rfl
  | cons field fields ih =>
    rw [List.mapM_cons] at h ⊢
    obtain ⟨q, hq, h⟩ := Option.bind_eq_some_iff.mp h
    obtain ⟨rest, hrest, h⟩ := Option.bind_eq_some_iff.mp h
    obtain rfl := Option.some.inj h
    have hone := hratios q List.mem_cons_self
    have hfloat : binary64.float field = some (nearest q) := by
      show (readDecimal field).bind ofRat = _
      rw [hq, Option.bind_some, ofRat_ratio hone.1 hone.2]
    rw [hfloat, ih hrest fun q hq => hratios q (List.mem_cons_of_mem _ hq)]
    rfl

/-- The count of a subset is the rounded product, cut to a whole number. -/
theorem intMul_ratio {q total : ℚ} {n : ℕ} (hnonneg : 0 ≤ q) (hle : q ≤ 1)
    (htotal : ofRat n = some total) :
    binary64.intMul (nearest q) n = some (roundedCount total q : ℤ) := by
  obtain ⟨hfinite, rfl⟩ := ofRat_eq_some_iff.mp htotal
  have hn : (0 : ℚ) ≤ n := n.cast_nonneg
  have hq := nearest_nonneg hnonneg
  have hproduct : 0 ≤ nearest q * nearest n := mul_nonneg hq (nearest_nonneg hn)
  have hupper : nearest q * nearest n ≤ nearest n :=
    mul_le_of_le_one_left (nearest_nonneg hn) (nearest_le hnonneg isNumber_one hle)
  rw [abs_of_nonneg (nearest_nonneg hn)] at hfinite
  show (ofRat n >>= fun total => ofRat (nearest q * total) >>= fun product =>
    some (truncate product)) = _
  rw [htotal]
  show (ofRat (nearest q * nearest n) >>= _) = _
  rw [ofRat_of_le hproduct (nearest_isNumber hn) hfinite hupper]
  show some (truncate _) = _
  rw [truncate_of_nonneg (nearest_nonneg hproduct), roundedCount,
    Int.natCast_floor_eq_floor (nearest_nonneg hproduct)]

theorem mapM_intMul {ratios : List ℚ} {total : ℚ} {n : ℕ} (hratios : ∀ q ∈ ratios, 0 ≤ q ∧ q ≤ 1)
    (htotal : ofRat n = some total) :
    (ratios.map nearest).mapM (fun ratio => binary64.intMul ratio n) =
      some ((ratios.map (roundedCount total)).map fun c : ℕ => (c : ℤ)) := by
  induction ratios with
  | nil => rfl
  | cons q ratios ih =>
    have hq := hratios q List.mem_cons_self
    rw [List.map_cons, List.mapM_cons, intMul_ratio hq.1 hq.2 htotal,
      ih fun q hq => hratios q (List.mem_cons_of_mem _ hq)]
    rfl

/-- The sections for the number `total` nearest to the number of rules. -/
def roundedSubsets (rules : List Text) (ratios : List ℚ) (total : ℚ) : List (ℕ × List Text) :=
  let counts := ratios.dropLast.map (roundedCount total)
  writeSubsets rules 1 (0 : ℕ) (counts.map (fun c : ℕ => (c : ℤ)) ++
    [(rules.length : ℤ) - (0 + counts.sum : ℕ)])

/-- What is written for ratios of a whole. -/
theorem rulesToSubsets_binary64 {ratioStr : Text} {ratios : List ℚ}
    (hread : readRatios ratioStr = some ratios) (hratios : IsRatios ratios)
    (hlt : ratios.length < rules.length) :
    rulesToSubsets binary64 ratioStr rules =
      if nearest (ratios.map nearest).sum = 1 then
        (ofRat rules.length).map (roundedSubsets rules ratios)
      else none := by
  unfold readRatios at hread
  obtain ⟨fields, hfields, hmap⟩ := Option.bind_eq_some_iff.mp hread
  have hbounds : ∀ q ∈ ratios, 0 ≤ q ∧ q ≤ 1 := fun q hq =>
    ⟨hratios.nonneg q hq, hratios.le_one q hq⟩
  have hfloat := mapM_float hmap hbounds
  unfold rulesToSubsets
  rw [hfields]
  show (fields.mapM binary64.float >>= _) = _
  rw [hfloat]
  show (if (!decide (nearest (ratios.map nearest).sum = 1)) = true then _ else _) = _
  by_cases hone : nearest (ratios.map nearest).sum = 1
  · rw [if_neg (by simpa using hone), if_pos hone, List.length_map, if_neg (by omega)]
    show ((ratios.map nearest).mapM (fun ratio => binary64.intMul ratio rules.length) >>= _) = _
    match htotal : ofRat rules.length with
    | none =>
      -- the first product raises already
      obtain ⟨q, rest, rfl⟩ := List.exists_cons_of_ne_nil hratios.ne_nil
      have hraise : binary64.intMul (nearest q) rules.length = none := by
        show (ofRat rules.length >>= _) = _
        rw [htotal]
        rfl
      rw [List.map_cons, List.mapM_cons, hraise]
      rfl
    | some total =>
      rw [mapM_intMul hbounds htotal]
      show some (writeSubsets rules 1 0 (addToLast _ _)) = some (roundedSubsets rules ratios total)
      obtain ⟨init, q, rfl⟩ := ratios.eq_nil_or_concat'.resolve_left hratios.ne_nil
      have hlast : (roundedCount total q : ℤ) + (rules.length -
          (((init.map (roundedCount total)).map fun c : ℕ => (c : ℤ)).sum + roundedCount total q)) =
          rules.length - (0 + (init.map (roundedCount total)).sum : ℕ) := by
        rw [← Nat.cast_list_sum]
        omega
      rw [roundedSubsets, List.dropLast_concat, List.map_append, List.map_append,
        List.map_singleton, List.map_singleton, addToLast_concat, List.sum_append,
        List.sum_singleton, hlast]
      rfl
  · rw [if_pos (by simpa using hone), if_neg hone]

/-! ## The partition -/

/-- A file with a section for each ratio, numbered from 1 on, that are the rules in their order.
Each section but the last one has the whole rules of its share, and the last one has its share and
what is left of the others. -/
structure Partition (rules : List Text) (ratios : List ℚ) (file : Text) : Prop where
  front : (cutSubsets (Csv.lines file)).1 = []
  numbers : (subsetsOf file).map Prod.fst = List.range' 1 ratios.length
  cover : (subsetsOf file).flatMap Prod.snd = rules
  sizes : ((subsetsOf file).map fun s => s.2.length).dropLast
    = ratios.dropLast.map (exactCount rules.length)
  last : ∀ s ∈ (subsetsOf file).getLast?, ∀ q ∈ ratios.getLast?,
    q * rules.length ≤ s.2.length ∧
    (1 < ratios.length → (s.2.length : ℚ) < q * rules.length + (ratios.length - 1)) ∧
    (ratios.length = 1 → s.2 = rules)

/-- No rounding shows: the numbers nearest to the ratios are summed to 1, the number of rules is
finite, and no product is rounded across an integer. -/
structure CutsExactly (ratios : List ℚ) (n : ℕ) : Prop where
  sum_lower : 1 - 1 / 2 ^ 54 ≤ (ratios.map nearest).sum
  sum_upper : (ratios.map nearest).sum ≤ 1 + 1 / 2 ^ 53
  notAcross : ∃ total, ofRat n = some total ∧ NotAcross total n n ratios

/-- The last section of a partition in the exact sizes. -/
theorem last_bounds {ratios : List ℚ} (hratios : IsRatios ratios) {n size : ℕ}
    (hsize : (ratios.dropLast.map (exactCount n)).sum + size = n) {q : ℚ}
    (hq : q ∈ ratios.getLast?) :
    q * n ≤ size ∧ (1 < ratios.length → (size : ℚ) < q * n + (ratios.length - 1)) := by
  obtain ⟨init, hinit⟩ := List.getLast?_eq_some_iff.mp hq
  subst hinit
  rw [List.dropLast_concat] at hsize
  have hinit : ∀ p ∈ init, 0 ≤ p := fun p hp => hratios.nonneg p (List.mem_append_left _ hp)
  have hone : init.sum + q = 1 := by
    have hsum := hratios.sum
    rwa [List.sum_append, List.sum_singleton] at hsum
  have hn : (n : ℚ) = (init.map (exactCount n)).sum + size := by
    rw [← Nat.cast_add, hsize]
  have hwhole : init.sum * n + q * n = n := by rw [← add_mul, hone, one_mul]
  have hle := sum_exactCount_le (n := n) hinit
  rw [List.length_append, List.length_singleton]
  constructor
  · linarith
  · intro hlen
    have hne : init ≠ [] := by
      rintro rfl
      exact absurd hlen (by decide)
    have hlt := lt_sum_exactCount n hne
    rw [Nat.cast_succ]
    linarith

/-- The subsets before the last one do not take more rules than there are. -/
theorem sum_exactCount_dropLast_le {ratios : List ℚ} (hratios : IsRatios ratios) (n : ℕ) :
    (ratios.dropLast.map (exactCount n)).sum ≤ n := by
  have hinit : ∀ q ∈ ratios.dropLast, 0 ≤ q := fun q hq =>
    hratios.nonneg q (List.mem_of_mem_dropLast hq)
  have hone : ratios.dropLast.sum ≤ 1 :=
    hratios.sum ▸ (List.dropLast_sublist ratios).sum_le_sum hratios.nonneg
  have hle := sum_exactCount_le (n := n) hinit
  have hshare : ratios.dropLast.sum * n ≤ n := mul_le_of_le_one_left n.cast_nonneg hone
  exact_mod_cast hle.trans hshare

/-- The sections are a partition exactly if no product is rounded across an integer. -/
theorem partition_roundedSubsets_iff (hrules : ∀ rule ∈ rules, IsSubsetRule rule) {ratios : List ℚ}
    (hratios : IsRatios ratios) {total : ℚ} (htotal : 0 ≤ total) :
    Partition rules ratios (subsetsFile (roundedSubsets rules ratios total)) ↔
      NotAcross total rules.length rules.length ratios := by
  have hwritten : ∀ s ∈ roundedSubsets rules ratios total, ∀ rule ∈ s.2, IsSubsetRule rule :=
    fun s hs rule hrule => hrules rule (mem_of_mem_writeSubsets hs hrule)
  obtain ⟨hfront, hfile⟩ := subsetsOf_subsetsFile hwritten
  have hcover : (roundedSubsets rules ratios total).flatMap Prod.snd = rules :=
    flatMap_writeSubsets rules 1 0 (ratios.dropLast.map (roundedCount total))
  obtain ⟨final, hconcat⟩ : ∃ final, roundedSubsets rules ratios total =
      writeSubsets rules 1 (0 : ℕ) ((ratios.dropLast.map (roundedCount total)).map
        fun c : ℕ => (c : ℤ)) ++ [final] := ⟨_, writeSubsets_concat rules 1 0 _ _⟩
  have hsum : (ratios.dropLast.map (exactCount rules.length)).sum ≤ rules.length - 0 :=
    sum_exactCount_dropLast_le hratios rules.length
  have hsizes := sizes_eq_iff htotal hratios.nonneg rules.length 1 0 hsum
  have hdropLast : ((roundedSubsets rules ratios total).map fun s => s.2.length).dropLast =
      (writeSubsets rules 1 (0 : ℕ) ((ratios.dropLast.map (roundedCount total)).map
        fun c : ℕ => (c : ℤ))).map fun s => s.2.length := by
    rw [hconcat, List.map_append, List.map_singleton, List.dropLast_concat]
  rw [Nat.sub_zero, ← hdropLast] at hsizes
  rw [← hsizes]
  constructor
  · intro h
    have hexact := h.sizes
    rwa [hfile] at hexact
  · intro hexact
    have hlength : (ratios.dropLast.map (exactCount rules.length)).sum + final.2.length
        = rules.length := by
      have hflat := congrArg List.length hcover
      rw [List.length_flatMap, hconcat, List.map_append, List.sum_append, List.map_singleton,
        List.sum_singleton] at hflat
      rw [← hexact, hdropLast]
      exact hflat
    constructor
    case front => exact hfront
    case numbers =>
      have hpos := List.length_pos_of_ne_nil hratios.ne_nil
      rw [hfile, roundedSubsets, writeSubsets_headers, List.length_append, List.length_map,
        List.length_map, List.length_dropLast, List.length_singleton, Nat.sub_add_cancel hpos]
    case cover => rw [hfile, hcover]
    case sizes => rw [hfile, hexact]
    case last =>
      intro s hs q hq
      rw [hfile, hconcat, List.getLast?_concat] at hs
      obtain rfl := Option.some.inj hs
      obtain ⟨hlower, hupper⟩ := last_bounds hratios hlength hq
      refine ⟨hlower, hupper, fun hone => ?_⟩
      -- there is one section only
      obtain ⟨p, rfl⟩ := List.length_eq_one_iff.mp hone
      rw [hconcat] at hcover
      simpa [writeSubsets] using hcover

/-- The file that `rules_to_subsets` writes is a partition of the rules in the given ratios exactly
if no rounding shows. -/
theorem rulesToSubsets_partition_iff {ratioStr : Text} {ratios : List ℚ}
    (hrules : ∀ rule ∈ rules, IsSubsetRule rule) (hread : readRatios ratioStr = some ratios)
    (hratios : IsRatios ratios) (hlt : ratios.length < rules.length) :
    (∃ subsets, rulesToSubsets binary64 ratioStr rules = some subsets ∧
        Partition rules ratios (subsetsFile subsets)) ↔
      CutsExactly ratios rules.length := by
  have hsum : 0 ≤ (ratios.map nearest).sum := List.sum_nonneg (List.forall_mem_map.mpr
    fun q hq => nearest_nonneg (hratios.nonneg q hq))
  have hnonneg : ∀ total, ofRat (rules.length : ℚ) = some total → 0 ≤ total := fun total htotal =>
    (ofRat_eq_some_iff.mp htotal).2 ▸ nearest_nonneg rules.length.cast_nonneg
  rw [rulesToSubsets_binary64 hread hratios hlt]
  constructor
  · intro ⟨subsets, hsubsets, hpartition⟩
    by_cases hone : nearest (ratios.map nearest).sum = 1
    · rw [if_pos hone] at hsubsets
      obtain ⟨total, htotal, rfl⟩ := Option.map_eq_some_iff.mp hsubsets
      obtain ⟨hlower, hupper⟩ := (nearest_eq_one_iff hsum).mp hone
      exact ⟨hlower, hupper, total, htotal,
        (partition_roundedSubsets_iff hrules hratios (hnonneg total htotal)).mp hpartition⟩
    · rw [if_neg hone] at hsubsets
      exact absurd hsubsets (Option.some_ne_none _).symm
  · intro h
    obtain ⟨total, htotal, hacross⟩ := h.notAcross
    refine ⟨roundedSubsets rules ratios total, ?_,
      (partition_roundedSubsets_iff hrules hratios (hnonneg total htotal)).mpr hacross⟩
    rw [if_pos ((nearest_eq_one_iff hsum).mpr ⟨h.sum_lower, h.sum_upper⟩), htotal]
    rfl

/-- A file of `n` rules. -/
def sameRules (n : ℕ) : List Text := List.replicate n "1,a\n".toList

theorem isSubsetRule_of_mem_sameRules {n : ℕ} : ∀ rule ∈ sameRules n, IsSubsetRule rule := by
  intro rule hrule
  rw [(List.mem_replicate.mp hrule).2]
  exact ⟨"1,a".toList, rfl, ⟨by decide, by decide⟩, by decide⟩

/-- The ratios of the documentation. -/
theorem rulesToSubsets_partition_iff_tenths :
    (∃ subsets, rulesToSubsets binary64 "0.1:0.2:0.7".toList (sameRules 10) = some subsets ∧
        Partition (sameRules 10) [1 / 10, 2 / 10, 7 / 10] (subsetsFile subsets)) ↔
      CutsExactly [1 / 10, 2 / 10, 7 / 10] (sameRules 10).length :=
  rulesToSubsets_partition_iff isSubsetRule_of_mem_sameRules (by decide +kernel)
    ⟨by decide +kernel, by decide +kernel⟩ (by decide)

/-- The share 0.29 of 100 rules has 28 of them, since `0.29 * 100` is less than 29. -/
theorem not_partition_hundredths :
    ¬ ∃ subsets, rulesToSubsets binary64 "0.29:0.71".toList (sameRules 100) = some subsets ∧
      Partition (sameRules 100) [29 / 100, 71 / 100] (subsetsFile subsets) := by
  have hratios : IsRatios [29 / 100, 71 / 100] := ⟨by decide +kernel, by decide +kernel⟩
  have hread : readRatios "0.29:0.71".toList = some [29 / 100, 71 / 100] := by decide +kernel
  have hone : nearest ([29 / 100, 71 / 100].map nearest).sum = 1 := by decide +kernel
  have htotal : ofRat ((sameRules 100).length : ℚ) = some 100 := by decide +kernel
  have hbelow : ¬ Reaches (nearest (29 / 100) * 100) 29 := by
    unfold Reaches
    decide +kernel
  intro ⟨subsets, hsubsets, hpartition⟩
  rw [rulesToSubsets_binary64 hread hratios (by decide), if_pos hone, htotal] at hsubsets
  obtain rfl := Option.some.inj hsubsets
  have hacross := (partition_roundedSubsets_iff isSubsetRule_of_mem_sameRules hratios
    (by norm_num)).mp hpartition
  have hexact : exactCount (sameRules 100).length (29 / 100) = 29 := by decide +kernel
  have hreaches := hacross.1
  rw [hexact] at hreaches
  exact hbelow hreaches

end Data
end PamoRxpBench
