import PamoRxpBench.Autotest.DataManagerTheorems
import PamoRxpBench.Autotest.ResultFile
import Mathlib.Data.List.Sort
import Mathlib.Data.String.Basic

/-!
# What a resumed experiment reads

The header is joined with commas and the rows with commas and blanks, so that the text of
every column but the first comes back with a blank before it; the reader numbers the rows
anew and drops a row with an invalid first column. A file comes back as it was exactly when it
has no entries or nothing but an index after its first column, `FirstColumnOnly`
(`roundTrips_iff`).
-/

namespace PamoRxpBench
namespace Autotest

open Csv (IsCell)

/-! ## The columns of a file -/

/-- A column is a field of some row. -/
theorem mem_resultsCols {results : List DataEntry} {c : String} :
    c ∈ resultsCols results ↔ ∃ r ∈ results, c ∈ r := by
  have hfold : ∀ (rs : List DataEntry) (cols : List String),
      c ∈ rs.foldl (fun colSet r => colSet ∪ r.keys) cols ↔ c ∈ cols ∨ ∃ r ∈ rs, c ∈ r := by
    intro rs
    induction rs with
    | nil => simp
    | cons r rs ih =>
      intro cols
      rw [List.foldl_cons, ih, List.mem_union_iff, AList.mem_keys.symm]
      simp [or_assoc]
  rw [resultsCols, List.mem_mergeSort, hfold]
  simp

/-- The columns are sorted, each once. -/
theorem pairwise_resultsCols (results : List DataEntry) :
    (resultsCols results).Pairwise (· < ·) := by
  have hnodup : ∀ (rs : List DataEntry) (cols : List String), cols.Nodup →
      (rs.foldl (fun colSet r => colSet ∪ r.keys) cols).Nodup := by
    intro rs
    induction rs with
    | nil => exact fun cols hcols => hcols
    | cons r rs ih => exact fun cols _ => ih _ (List.Nodup.union _ r.keys_nodup)
  have hne : (resultsCols results).Pairwise (· ≠ ·) :=
    (List.mergeSort_perm _ _).nodup_iff.mpr (hnodup results [] List.nodup_nil)
  have hle : (resultsCols results).Pairwise fun a b => decide (a ≤ b) = true :=
    List.pairwise_mergeSort (by simpa using fun a b c => le_trans)
      (by simpa using fun a b => le_total a b) _
  refine (hle.and hne).imp fun h => ?_
  exact lt_of_le_of_ne (of_decide_eq_true h.1) h.2

/-- The columns are the names that occur, in their order. -/
theorem resultsCols_eq {results : List DataEntry} {cols : List String}
    (hsorted : cols.Pairwise (· < ·)) (hmem : ∀ c, c ∈ cols ↔ ∃ r ∈ results, c ∈ r) :
    resultsCols results = cols := by
  have hperm : (resultsCols results).Perm cols := by
    refine (List.perm_ext_iff_of_nodup ?_ ?_).mpr fun c => ?_
    · exact (pairwise_resultsCols results).imp ne_of_lt
    · exact hsorted.imp ne_of_lt
    · rw [mem_resultsCols, hmem]
  exact hperm.eq_of_pairwise' ((pairwise_resultsCols results).imp le_of_lt)
    (hsorted.imp le_of_lt)

/-! ## The lines of a file -/

/-- The text of a column in the row of a result. -/
def cellText (r : DataEntry) (c : String) : String :=
  Value.toText (match r.lookup c with
    | some v => v.first
    | none => .str "NaN")

theorem cellText_of_lookup {r : DataEntry} {c : String} {v : Values} (h : r.lookup c = some v) :
    cellText r c = v.first.toText := by
  rw [cellText, h]

/-- The first field of a row has its text, and every other one a blank before it. -/
def written (r : DataEntry) : List String → List (Text × Text)
  | [] => []
  | c :: cols => (c.toList, (cellText r c).toList) ::
      cols.map fun c => (c.toList, ' ' :: (cellText r c).toList)

theorem toList_row (r : DataEntry) (cols : List String) :
    (", ".intercalate (cols.map (cellText r))).toList =
      Csv.joinFields ((written r cols).map Prod.snd) := by
  rw [String.toList_intercalate]
  match cols with
  | [] => rfl
  | c :: cols =>
    show [',', ' '].intercalate _ = _
    rw [List.map_cons, List.map_cons, Csv.intercalate_blank, written, List.map_cons,
      List.map_map, List.map_map, List.map_map]
    rfl

/-- The file has a header and a line for each row. -/
theorem exportFile_eq (data : DataManager) :
    data.exportFile = Csv.unlines
      (Csv.joinFields ((resultsCols data.entries).map String.toList) ::
        data.entries.map fun r =>
          Csv.joinFields ((written r (resultsCols data.entries)).map Prod.snd)) := by
  rw [DataManager.exportFile, DataManager.exportCsv, resultsToCsv, resultsToMatrix, List.map_cons,
    String.toList_intercalate, List.map_map, List.map_map]
  have hrows := List.map_congr_left (l := data.entries) fun r _ =>
    toList_row r (resultsCols data.entries)
  rw [← hrows]
  simp only [Function.comp_def, List.map_map]
  rfl

/-- A file depends on the columns and on the texts in them. -/
theorem exportFile_congr {data data' : DataManager}
    (hcols : resultsCols data'.entries = resultsCols data.entries)
    (hcells : List.Forall₂
      (fun r r' => ∀ c ∈ resultsCols data.entries, cellText r' c = cellText r c)
      data.entries data'.entries) :
    data'.exportFile = data.exportFile := by
  have hwritten : ∀ (cols : List String) (r r' : DataEntry),
      (∀ c ∈ cols, cellText r' c = cellText r c) → written r' cols = written r cols := by
    intro cols r r' h
    match cols with
    | [] => rfl
    | c :: cols =>
      have hc : cellText r' c = cellText r c := h c List.mem_cons_self
      rw [written, written, hc]
      refine congrArg _ (List.map_congr_left fun d hd => ?_)
      rw [h d (List.mem_cons_of_mem _ hd)]
  rw [exportFile_eq, exportFile_eq, hcols]
  generalize resultsCols data.entries = cols at hcells
  generalize data.entries = rs at hcells
  generalize data'.entries = rs' at hcells
  refine congrArg (fun rows => Csv.unlines (Csv.joinFields (cols.map String.toList) :: rows)) ?_
  induction hcells with
  | nil => rfl
  | cons hrow _ ih => rw [List.map_cons, List.map_cons, hwritten cols _ _ hrow, ih]

/-- The texts of the entries have neither commas nor line breaks. -/
structure Fields (entries : List DataEntry) : Prop where
  name : ∀ c ∈ resultsCols entries, IsCell c.toList
  cell : ∀ r ∈ entries, ∀ c ∈ resultsCols entries, IsCell (cellText r c).toList

theorem isCell_written {r : DataEntry} {cols : List String}
    (h : ∀ c ∈ cols, IsCell (cellText r c).toList) : ∀ p ∈ written r cols, IsCell p.2 := by
  match cols with
  | [] => exact fun p hp => absurd hp List.not_mem_nil
  | c :: cols =>
    intro p hp
    rcases List.mem_cons.mp hp with rfl | hp
    · exact h c List.mem_cons_self
    · obtain ⟨d, hd, rfl⟩ := List.mem_map.mp hp
      exact (h d (List.mem_cons_of_mem _ hd)).cons_blank

theorem zip_written (r : DataEntry) (cols : List String) :
    (cols.map String.toList).zip ((written r cols).map Prod.snd) = written r cols := by
  match cols with
  | [] => rfl
  | c :: cols =>
    rw [written, List.map_cons, List.map_cons, List.zip_cons_cons, List.map_map, List.zip_map']
    rfl

/-- The file is cut again into these lines, if no cell has a line break. -/
theorem lines_exportFile {data : DataManager} (h : Fields data.entries) :
    Csv.lines data.exportFile =
      Csv.joinFields ((resultsCols data.entries).map String.toList) ::
        data.entries.map fun r =>
          Csv.joinFields ((written r (resultsCols data.entries)).map Prod.snd) := by
  rw [exportFile_eq]
  apply Csv.lines_unlines
  intro l hl
  rcases List.mem_cons.mp hl with rfl | hl
  · apply Csv.isLine_joinFields
    intro f hf
    obtain ⟨c, hc, rfl⟩ := List.mem_map.mp hf
    exact (h.name c hc).2
  · obtain ⟨r, hr, rfl⟩ := List.mem_map.mp hl
    apply Csv.isLine_joinFields
    intro f hf
    obtain ⟨p, hp, rfl⟩ := List.mem_map.mp hf
    exact (isCell_written (h.cell r hr) p hp).2

/-! ## The rows that are read -/

theorem lookup_toAdd_concat (row : List (Text × Text)) (p : Text × Text) (c : String) :
    (toAdd (row ++ [p])).lookup c =
      if c.toList = p.1 then some (.single (.str (String.ofList p.2)))
      else (toAdd row).lookup c := by
  rw [toAdd, List.foldl_append, List.foldl_cons, List.foldl_nil]
  by_cases hc : c.toList = p.1
  · rw [if_pos hc, ← hc, String.ofList_toList, AList.lookup_insert]
  · have hne : c ≠ String.ofList p.1 := fun heq => hc (by rw [heq, String.toList_ofList])
    rw [if_neg hc, AList.lookup_insert_ne hne]
    rfl

/-- A column that is read comes from a field of the row. -/
theorem exists_of_lookup_toAdd {row : List (Text × Text)} {c : String} {v : Values}
    (h : (toAdd row).lookup c = some v) :
    ∃ p ∈ row, p.1 = c.toList ∧ v = .single (.str (String.ofList p.2)) := by
  induction row using List.reverseRecOn with
  | nil => cases h
  | append_singleton row p ih =>
    rw [lookup_toAdd_concat] at h
    by_cases hc : c.toList = p.1
    · rw [if_pos hc] at h
      exact ⟨p, by simp, hc.symm, (Option.some.inj h).symm⟩
    · rw [if_neg hc] at h
      obtain ⟨q, hq, hname, hv⟩ := ih h
      exact ⟨q, List.mem_append_left _ hq, hname, hv⟩

/-- Where no name occurs twice, every field is read. -/
theorem lookup_toAdd {row : List (Text × Text)} (hnodup : (row.map Prod.fst).Nodup)
    {p : Text × Text} (hp : p ∈ row) {c : String} (hc : c.toList = p.1) :
    (toAdd row).lookup c = some (.single (.str (String.ofList p.2))) := by
  induction row using List.reverseRecOn with
  | nil => exact absurd hp List.not_mem_nil
  | append_singleton row q ih =>
    rw [List.map_append, List.nodup_append] at hnodup
    rw [lookup_toAdd_concat]
    rcases List.mem_append.mp hp with hp | hp
    · have hne : p.1 ≠ q.1 := hnodup.2.2 _ (List.mem_map_of_mem hp) _ (by simp)
      rw [hc, if_neg hne]
      exact ih hnodup.1 hp
    · rw [List.mem_singleton.mp hp] at hc ⊢
      rw [if_pos hc]

/-- The rows numbered from `k` on. -/
def numbered : ℕ → List DataEntry → List DataEntry
  | _, [] => []
  | k, r :: rs => r.insert "index" (.single (.int k)) :: numbered (k + 1) rs

/-- A row that is read is added under the next number if it is not invalid. -/
theorem addEntry_read {data : DataManager} (h : Plain data) (hcols : data.columns = [])
    (r : DataEntry) :
    (data.addEntry r none false false).2 =
      if hasInvalid r "NaN" = true then data
      else { data with
        rowIdx := data.rowIdx + 1
        entries := data.entries ++ [r.insert "index" (.single (.int data.rowIdx))] } := by
  obtain ⟨tok, useIndex, parameterPrefix, columns, entries, rowIdx, metrics⟩ := data
  obtain ⟨rfl, rfl, rfl, rfl⟩ : tok = "NaN" ∧ useIndex = true ∧ parameterPrefix = "param_" ∧
    metrics = [] := ⟨h.invalidToken, h.useIndex, h.parameterPrefix, h.metrics⟩
  obtain rfl : columns = [] := hcols
  have hfill : fillInvalid r [] "NaN" = r := rfl
  unfold DataManager.addEntry
  simp only [Bool.false_eq_true, if_false, hfill, Bool.not_false, Bool.and_true, if_true]
  split
  · rfl
  · rfl

/-- The rows that are not invalid are added under new numbers. -/
theorem entries_loadFromCsv {data : DataManager} (h : Plain data) (hcols : data.columns = [])
    (rows : List DataEntry) :
    (data.loadFromCsv rows).entries = data.entries ++
      numbered data.rowIdx (rows.filter fun r => !hasInvalid r "NaN") := by
  induction rows generalizing data with
  | nil => exact (List.append_nil _).symm
  | cons r rows ih =>
    rw [DataManager.loadFromCsv, List.foldl_cons, addEntry_read h hcols]
    by_cases hinv : hasInvalid r "NaN" = true
    · rw [if_pos hinv, List.filter_cons_of_neg (by rw [hinv]; decide)]
      exact ih h hcols
    · rw [if_neg hinv, List.filter_cons_of_pos (by simpa using hinv)]
      have hplain : Plain { data with
          rowIdx := data.rowIdx + 1
          entries := data.entries ++ [r.insert "index" (.single (.int data.rowIdx))] } :=
        ⟨h.invalidToken, h.useIndex, h.parameterPrefix, h.metrics⟩
      refine (ih hplain hcols).trans ?_
      rw [List.append_assoc]
      rfl

/-! ## Files that come back -/

/-- The row read has the texts of the original. -/
def SameRow (cols : List String) (original loaded : DataEntry) : Prop :=
  ∀ c ∈ cols, (loaded.lookup c).map (fun v => v.first.toText) = some (cellText original c)

/-- The entries are read back in their order, and saving what was read changes nothing. -/
structure RoundTrips (data : DataManager) : Prop where
  loaded : ∃ data', DataManager.init.loadFile data.exportFile = some data' ∧
    List.Forall₂ (SameRow (resultsCols data.entries)) data.entries data'.entries
  resaved : ∀ n, resaved n data.exportFile = some data.exportFile

/-- No column stands behind the first but the index, which counts the entries; the texts are
fields, and none is the invalid token. -/
structure FirstColumnOnly (entries : List DataEntry) : Prop extends Fields entries where
  index_mem : "index" ∈ resultsCols entries
  tail : ∀ c ∈ (resultsCols entries).tail, c = "index"
  valid : ∀ r ∈ entries, ∀ c ∈ resultsCols entries, cellText r c ≠ "NaN"
  index : ∀ (k : ℕ) r, entries[k]? = some r → cellText r "index" = (Value.int k).toText

theorem map_fst_written (r : DataEntry) (cols : List String) :
    (written r cols).map Prod.fst = cols.map String.toList := by
  match cols with
  | [] => rfl
  | c :: cols =>
    rw [written, List.map_cons, List.map_cons, List.map_map]
    rfl

/-- A row whose fields are not all empty is read as it was written. -/
theorem record_written {r : DataEntry} {cols : List String}
    (h : ∀ c ∈ cols, IsCell (cellText r c).toList)
    (hne : Csv.joinFields ((written r cols).map Prod.snd) ≠ []) :
    Csv.record (Csv.joinFields ((written r cols).map Prod.snd)) =
      (written r cols).map Prod.snd := by
  refine Csv.record_joinFields (fun f hf => ?_) hne
  obtain ⟨p, hp, rfl⟩ := List.mem_map.mp hf
  exact (isCell_written h p hp).1

/-- The blank rows are the ones whose fields are all empty. -/
theorem filter_records {rs : List DataEntry} {cols : List String}
    (h : ∀ r ∈ rs, ∀ c ∈ cols, IsCell (cellText r c).toList) :
    ((rs.map fun r => Csv.record (Csv.joinFields ((written r cols).map Prod.snd))).filter
      fun row => row ≠ []) =
    (rs.filter fun r => Csv.joinFields ((written r cols).map Prod.snd) ≠ []).map fun r =>
      (written r cols).map Prod.snd := by
  induction rs with
  | nil => rfl
  | cons r rs ih =>
    have hrest := ih fun r hr => h r (List.mem_cons_of_mem _ hr)
    by_cases hblank : Csv.joinFields ((written r cols).map Prod.snd) = []
    · have hrecord : Csv.record (Csv.joinFields ((written r cols).map Prod.snd)) = [] := by
        rw [hblank]
        rfl
      rw [List.map_cons, hrecord, List.filter_cons_of_neg (by simp), hrest,
        List.filter_cons_of_neg (by simpa using hblank)]
    · have hrecord := record_written (h r List.mem_cons_self) hblank
      have hne : (written r cols).map Prod.snd ≠ [] := by
        intro hnil
        rw [hnil] at hblank
        exact hblank rfl
      rw [List.map_cons, hrecord, List.filter_cons_of_pos (by simpa using hne), hrest,
        List.filter_cons_of_pos (by simpa using hblank), List.map_cons]

/-- What is loaded: the rows that are not blank, without the invalid ones, numbered anew. -/
theorem loadFile_exportFile {data : DataManager} (h : Fields data.entries)
    (hindex : "index" ∈ resultsCols data.entries) :
    ∃ data', DataManager.init.loadFile data.exportFile = some data' ∧
      data'.entries = numbered 0 (((data.entries.filter fun r =>
        Csv.joinFields ((written r (resultsCols data.entries)).map Prod.snd) ≠ []).map fun r =>
          toAdd (written r (resultsCols data.entries))).filter fun r => !hasInvalid r "NaN") := by
  have hlines := lines_exportFile h
  obtain ⟨hname, hcell⟩ := h
  generalize resultsCols data.entries = cols at *
  -- the header is not blank, since it has a column with a name
  have hheader : Csv.record (Csv.joinFields (cols.map String.toList)) = cols.map String.toList := by
    apply Csv.record_joinFields
    · intro f hf
      obtain ⟨c, hc, rfl⟩ := List.mem_map.mp hf
      exact (hname c hc).1
    · intro hnil
      have := Csv.length_le_joinFields (List.mem_map_of_mem (f := String.toList) hindex)
      rw [hnil] at this
      exact absurd this (by decide)
  -- a row is read back if its line is not blank
  have hread : Csv.dictReader data.exportFile = some ((data.entries.filter fun r =>
      Csv.joinFields ((written r cols).map Prod.snd) ≠ []).map fun r => written r cols) := by
    have hrecords : (Csv.lines data.exportFile).map Csv.record = cols.map String.toList ::
        data.entries.map fun r => Csv.record (Csv.joinFields ((written r cols).map Prod.snd)) := by
      rw [hlines, List.map_cons, hheader, List.map_map]
      rfl
    have hlen : ∀ r : DataEntry, ((written r cols).map Prod.snd).length =
        (cols.map String.toList).length := by
      intro r
      rw [List.length_map, ← map_fst_written r cols, List.length_map]
    rw [Csv.dictReader_of_records hrecords, filter_records hcell, if_pos, List.map_map]
    · exact congrArg some (List.map_congr_left fun r _ => zip_written r cols)
    · intro row hrow
      obtain ⟨r, -, rfl⟩ := List.mem_map.mp hrow
      exact hlen r
  refine ⟨_, by rw [DataManager.loadFile, hread]; rfl, ?_⟩
  rw [entries_loadFromCsv Plain.init rfl, List.map_map]
  rfl

theorem length_numbered (k : ℕ) (rs : List DataEntry) : (numbered k rs).length = rs.length := by
  induction rs generalizing k with
  | nil => rfl
  | cons r rs ih => rw [numbered, List.length_cons, List.length_cons, ih]

/-- The rows are numbered in their order. -/
theorem getElem_numbered (k : ℕ) (rs : List DataEntry) (i : ℕ) (hi : i < rs.length)
    (hi' : i < (numbered k rs).length) :
    (numbered k rs)[i] = rs[i].insert "index" (.single (.int (k + i : ℕ))) := by
  induction rs generalizing k i with
  | nil => exact absurd hi (Nat.not_lt_zero i)
  | cons r rs ih =>
    match i with
    | 0 => rfl
    | i + 1 =>
      have hi : i < rs.length := by
        rw [List.length_cons] at hi
        omega
      have hk : k + 1 + i = k + (i + 1) := by omega
      have hget := ih (k + 1) i hi (by rw [length_numbered]; exact hi)
      rw [hk] at hget
      exact hget

/-- When no row is lost, every row is read. -/
theorem entries_of_length {data data' : DataManager} (h : Fields data.entries)
    (hindex : "index" ∈ resultsCols data.entries)
    (hload : DataManager.init.loadFile data.exportFile = some data')
    (hlen : data'.entries.length = data.entries.length) :
    data'.entries =
      numbered 0 (data.entries.map fun r => toAdd (written r (resultsCols data.entries))) := by
  obtain ⟨data'', hload', hentries⟩ := loadFile_exportFile h hindex
  obtain rfl : data' = data'' := Option.some.inj (hload.symm.trans hload')
  rw [hentries, length_numbered] at hlen
  have hblank := List.length_filter_le (fun r : DataEntry =>
    Csv.joinFields ((written r (resultsCols data.entries)).map Prod.snd) ≠ []) data.entries
  have hinvalid := List.length_filter_le (fun r : DataEntry => !hasInvalid r "NaN")
    ((data.entries.filter fun r =>
      Csv.joinFields ((written r (resultsCols data.entries)).map Prod.snd) ≠ []).map fun r =>
        toAdd (written r (resultsCols data.entries)))
  rw [List.length_map] at hinvalid
  rw [hentries, List.filter_sublist.eq_of_length (by rw [List.length_map]; omega),
    List.filter_sublist.eq_of_length (by omega)]

theorem nodup_written (r : DataEntry) (results : List DataEntry) :
    ((written r (resultsCols results)).map Prod.fst).Nodup := by
  rw [map_fst_written]
  exact List.Nodup.map (fun a b h => String.toList_inj.mp h)
    ((pairwise_resultsCols results).imp ne_of_lt)

/-! ## The first column -/

variable {results : List DataEntry} {r : DataEntry} {c : String}

/-- The first column is read as it is. -/
theorem lookup_head (hc : (resultsCols results).head? = some c) :
    (toAdd (written r (resultsCols results))).lookup c =
      some (.single (.str (cellText r c))) := by
  have hmem : (c.toList, (cellText r c).toList) ∈ written r (resultsCols results) := by
    match hcols : resultsCols results with
    | [] =>
      rw [hcols] at hc
      cases hc
    | d :: cols =>
      rw [hcols] at hc
      obtain rfl := Option.some.inj hc
      exact List.mem_cons_self
  rw [lookup_toAdd (nodup_written r results) hmem rfl, String.ofList_toList]

/-- Every other one is read with a blank before it. -/
theorem lookup_tail (hc : c ∈ (resultsCols results).tail) :
    (toAdd (written r (resultsCols results))).lookup c =
      some (.single (.str (String.ofList (' ' :: (cellText r c).toList)))) := by
  have hmem : (c.toList, ' ' :: (cellText r c).toList) ∈ written r (resultsCols results) := by
    match hcols : resultsCols results with
    | [] =>
      rw [hcols] at hc
      exact absurd hc List.not_mem_nil
    | d :: cols =>
      rw [hcols] at hc
      exact List.mem_cons_of_mem _ (List.mem_map_of_mem hc)
  rw [lookup_toAdd (nodup_written r results) hmem rfl]

theorem mem_written {p : Text × Text} {cols : List String} (hp : p ∈ written r cols) :
    ∃ c ∈ cols, p.1 = c.toList ∧
      (p.2 = (cellText r c).toList ∨ p.2 = ' ' :: (cellText r c).toList) := by
  match cols with
  | [] => exact absurd hp List.not_mem_nil
  | c :: cols =>
    rcases List.mem_cons.mp hp with rfl | hp
    · exact ⟨c, List.mem_cons_self, rfl, Or.inl rfl⟩
    · obtain ⟨d, hd, rfl⟩ := List.mem_map.mp hp
      exact ⟨d, List.mem_cons_of_mem _ hd, rfl, Or.inr rfl⟩

theorem toList_int (k : ℕ) : (Value.int k).toText.toList = Text.decimal k := by
  show (Nat.repr k).toList = Nat.toDigits 10 k
  rw [Nat.repr, String.toList_ofList]

theorem isCell_int (k : ℕ) : IsCell (Value.int k).toText.toList := by
  rw [toList_int]
  have hne : ∀ d : Char, d.isDigit = false → d ∉ Text.decimal k := fun d hd hmem =>
    Text.ne_of_isDigit (Text.isDigit_of_mem_decimal hmem) hd rfl
  exact ⟨hne ',' (by decide), hne '\n' (by decide), hne '\r' (by decide)⟩

theorem int_ne_nan (k : ℕ) : (Value.int k).toText ≠ "NaN" := by
  intro heq
  have hmem : 'N' ∈ Text.decimal k := by
    rw [← toList_int, heq]
    decide
  exact Text.ne_of_isDigit (Text.isDigit_of_mem_decimal hmem) (by decide) rfl

namespace FirstColumnOnly

variable {data data' : DataManager}

/-- Any other column than the index is the first one. -/
theorem head (h : FirstColumnOnly results) (hc : c ∈ resultsCols results) (hne : c ≠ "index") :
    (resultsCols results).head? = some c := by
  have htail := h.tail
  match hcols : resultsCols results with
  | [] =>
    rw [hcols] at hc
    exact absurd hc List.not_mem_nil
  | d :: cols =>
    rw [hcols] at hc htail
    rcases List.mem_cons.mp hc with rfl | hc
    · rfl
    · exact absurd (htail c hc) hne

/-- No row is blank, since the index is not. -/
theorem not_blank (h : FirstColumnOnly results) (hr : r ∈ results) :
    Csv.joinFields ((written r (resultsCols results)).map Prod.snd) ≠ [] := by
  intro hblank
  obtain ⟨k, hk⟩ := List.mem_iff_getElem?.mp hr
  obtain ⟨p, hp, hname⟩ : ∃ p ∈ written r (resultsCols results), p.1 = "index".toList := by
    rw [← List.mem_map, map_fst_written]
    exact List.mem_map_of_mem h.index_mem
  have hlen := Csv.length_le_joinFields (List.mem_map_of_mem (f := Prod.snd) hp)
  rw [hblank] at hlen
  obtain ⟨c, -, hc, htext⟩ := mem_written hp
  obtain rfl : c = "index" := String.toList_inj.mp (hc.symm.trans hname)
  have hpos : 0 < (cellText r "index").toList.length := by
    rw [h.index k r hk, toList_int]
    exact List.length_pos_of_ne_nil Nat.toDigits_ne_nil
  rcases htext with htext | htext
  · rw [htext] at hlen
    exact absurd hlen (by simpa using hpos.ne')
  · rw [htext] at hlen
    exact absurd hlen (by simp)

/-- No row is invalid: the first column is not the token, and the others start with a blank. -/
theorem not_invalid (h : FirstColumnOnly results) (hr : r ∈ results) :
    hasInvalid (toAdd (written r (resultsCols results))) "NaN" = false := by
  rw [Bool.eq_false_iff]
  intro hinv
  obtain ⟨k, v, hv, hnan⟩ := (hasInvalid_iff _ _).mp hinv
  obtain ⟨p, hp, -, rfl⟩ := exists_of_lookup_toAdd hv
  have htoken : p.2 = "NaN".toList := by
    rw [← Value.str.inj hnan, String.toList_ofList]
  obtain ⟨c, hc, -, htext⟩ := mem_written hp
  rcases htext with htext | htext
  · exact h.valid r hr c hc (String.toList_inj.mp (htext.symm.trans htoken))
  · rw [htext] at htoken
    exact absurd (List.cons.inj htoken).1 (by decide)

/-- What the loaded rows are. -/
theorem entries_loaded (h : FirstColumnOnly data.entries) :
    ∃ data', DataManager.init.loadFile data.exportFile = some data' ∧
      data'.entries = numbered 0 (data.entries.map fun r =>
        toAdd (written r (resultsCols data.entries))) := by
  obtain ⟨data', hload, hentries⟩ := loadFile_exportFile h.toFields h.index_mem
  refine ⟨data', hload, ?_⟩
  rw [hentries, List.filter_eq_self.mpr, List.filter_eq_self.mpr]
  · intro r hr
    simpa using h.not_blank hr
  · intro row hrow
    obtain ⟨r, hr, rfl⟩ := List.mem_map.mp hrow
    rw [h.not_invalid (List.mem_of_mem_filter hr)]
    rfl

theorem lookup_rowRead (h : FirstColumnOnly results) {k : ℕ} (hk : results[k]? = some r)
    (hc : c ∈ resultsCols results) :
    (((toAdd (written r (resultsCols results))).insert "index" (.single (.int k))).lookup c).map
      (fun v => v.first.toText) = some (cellText r c) := by
  by_cases hindex : c = "index"
  · rw [hindex, AList.lookup_insert, h.index k r hk]
    rfl
  · rw [AList.lookup_insert_ne hindex, lookup_head (h.head hc hindex)]
    rfl

/-- They are the rows that were exported. -/
theorem sameRows (h : FirstColumnOnly data.entries)
    (hentries : data'.entries = numbered 0 (data.entries.map fun r =>
      toAdd (written r (resultsCols data.entries)))) :
    List.Forall₂ (SameRow (resultsCols data.entries)) data.entries data'.entries := by
  refine List.forall₂_iff_get.mpr ⟨?_, fun k hk hk' c hc => ?_⟩
  · rw [hentries, length_numbered, List.length_map]
  · have hrow := getElem_numbered 0 (data.entries.map fun r =>
      toAdd (written r (resultsCols data.entries))) k (by rw [List.length_map]; exact hk)
      (by rw [length_numbered, List.length_map]; exact hk)
    rw [List.getElem_map, Nat.zero_add] at hrow
    simp only [List.get_eq_getElem, hentries, hrow]
    exact h.lookup_rowRead (List.getElem?_eq_getElem hk) hc

/-- The columns that were read are the ones that were written. -/
theorem resultsCols_loaded (h : FirstColumnOnly data.entries)
    (hentries : data'.entries = numbered 0 (data.entries.map fun r =>
      toAdd (written r (resultsCols data.entries)))) :
    resultsCols data'.entries = resultsCols data.entries := by
  apply resultsCols_eq (pairwise_resultsCols _)
  intro c
  constructor
  · intro hc
    obtain ⟨r, hr, -⟩ := mem_resultsCols.mp hc
    obtain ⟨k, hk, -⟩ := List.mem_iff_getElem.mp hr
    obtain ⟨hlen, hrows⟩ := List.forall₂_iff_get.mp (h.sameRows hentries)
    have hrow := hrows k hk (hlen ▸ hk) c hc
    refine ⟨_, List.get_mem data'.entries ⟨k, hlen ▸ hk⟩, AList.lookup_isSome.mp ?_⟩
    obtain ⟨v, hv, -⟩ := Option.map_eq_some_iff.mp hrow
    rw [hv]
    rfl
  · -- a column of a loaded row was written, or it is the index
    intro ⟨row, hrow, hc⟩
    obtain ⟨k, hk, rfl⟩ := List.mem_iff_getElem.mp hrow
    have hk' : k < (data.entries.map fun r =>
        toAdd (written r (resultsCols data.entries))).length := by
      rw [hentries, length_numbered] at hk
      exact hk
    simp only [hentries, getElem_numbered 0 _ k hk', List.getElem_map, AList.mem_insert] at hc
    rcases hc with rfl | hc
    · exact h.index_mem
    · obtain ⟨v, hv⟩ := Option.isSome_iff_exists.mp (AList.lookup_isSome.mpr hc)
      obtain ⟨p, hp, hname, -⟩ := exists_of_lookup_toAdd hv
      obtain ⟨d, hd, hd', -⟩ := mem_written hp
      rw [← String.toList_inj.mp (hd'.symm.trans hname)]
      exact hd

/-- So this kind of table is loaded as it was. -/
theorem roundTrips (h : FirstColumnOnly data.entries) : RoundTrips data := by
  obtain ⟨data', hload, hentries⟩ := h.entries_loaded
  have hsame := h.sameRows hentries
  refine ⟨⟨data', hload, hsame⟩, fun n => ?_⟩
  have hfile : data'.exportFile = data.exportFile := by
    refine exportFile_congr (h.resultsCols_loaded hentries) (hsame.imp fun r row hrow c hc => ?_)
    obtain ⟨v, hv, htext⟩ := Option.map_eq_some_iff.mp (hrow c hc)
    exact (cellText_of_lookup hv).trans htext
  induction n with
  | zero => rfl
  | succ n ih => rw [resaved, hload, Option.bind_some, hfile, ih]

end FirstColumnOnly

/-! ## What comes back has one column -/

/-- An entry that was loaded is a row that was read, with its number. -/
theorem exists_row_of_loaded {file : Text} {data' : DataManager}
    (h : DataManager.init.loadFile file = some data') {k : ℕ} {row : DataEntry}
    (hk : data'.entries[k]? = some row) :
    ∃ fields, (∀ p ∈ fields, IsCell p.1 ∧ IsCell p.2) ∧
      hasInvalid (toAdd fields) "NaN" = false ∧
      row = (toAdd fields).insert "index" (.single (.int k)) := by
  obtain ⟨rows, hrows, rfl⟩ := Option.map_eq_some_iff.mp h
  rw [entries_loadFromCsv Plain.init rfl] at hk
  obtain ⟨hlt, hrow⟩ := List.getElem?_eq_some_iff.mp hk
  have hlt' : k < ((rows.map toAdd).filter fun r => !hasInvalid r "NaN").length := by
    rw [← length_numbered DataManager.init.rowIdx]
    exact hlt
  have hnumbered := getElem_numbered 0 _ k hlt' hlt
  rw [Nat.zero_add] at hnumbered
  have hmem := List.getElem_mem hlt'
  obtain ⟨fields, hfields, heq⟩ := List.mem_map.mp (List.mem_of_mem_filter hmem)
  refine ⟨fields, Csv.isCell_of_dictReader hrows fields hfields, ?_, ?_⟩
  · have := List.of_mem_filter hmem
    rw [← heq] at this
    simpa using this
  · rw [heq]
    exact hrow.symm.trans hnumbered

/-- The columns of an entry that was loaded are fields, and none is invalid. -/
theorem field_of_loaded {file : Text} {data' : DataManager}
    (h : DataManager.init.loadFile file = some data') {k : ℕ} {row : DataEntry}
    (hk : data'.entries[k]? = some row) {v : Values} (hv : row.lookup c = some v) :
    IsCell c.toList ∧ IsCell v.first.toText.toList ∧ v.first.toText ≠ "NaN" ∧
      (c = "index" → v.first.toText = (Value.int k).toText) := by
  obtain ⟨fields, hfields, hvalid, rfl⟩ := exists_row_of_loaded h hk
  by_cases hc : c = "index"
  · rw [hc, AList.lookup_insert] at hv
    obtain rfl := Option.some.inj hv
    refine ⟨?_, isCell_int k, int_ne_nan k, fun _ => rfl⟩
    rw [hc]
    exact ⟨by decide, by decide, by decide⟩
  · rw [AList.lookup_insert_ne hc] at hv
    obtain ⟨p, hp, hname, rfl⟩ := exists_of_lookup_toAdd hv
    obtain ⟨hfst, hsnd⟩ := hfields p hp
    have htext : (Value.str (String.ofList p.2)).toText.toList = p.2 := String.toList_ofList
    refine ⟨hname ▸ hfst, htext.symm ▸ hsnd, fun hnan => ?_, fun heq => absurd heq hc⟩
    rw [Bool.eq_false_iff] at hvalid
    exact hvalid ((hasInvalid_iff _ _).mpr ⟨c, _, hv, congrArg Value.str hnan⟩)

namespace RoundTrips

variable {data : DataManager}

/-- A table that comes back has cells that can be read back. -/
theorem cell (h : RoundTrips data) {k : ℕ} (hk : data.entries[k]? = some r)
    (hc : c ∈ resultsCols data.entries) :
    IsCell c.toList ∧ IsCell (cellText r c).toList ∧ cellText r c ≠ "NaN" ∧
      (c = "index" → cellText r c = (Value.int k).toText) := by
  obtain ⟨data', hload, hrows⟩ := h.loaded
  obtain ⟨hlen, hget⟩ := List.forall₂_iff_get.mp hrows
  obtain ⟨hlt, rfl⟩ := List.getElem?_eq_some_iff.mp hk
  obtain ⟨v, hv, htext⟩ := Option.map_eq_some_iff.mp (hget k hlt (hlen ▸ hlt) c hc)
  have := field_of_loaded hload (List.getElem?_eq_getElem (hlen ▸ hlt)) hv
  rw [htext] at this
  exact this

theorem fields (h : RoundTrips data) : Fields data.entries where
  name := by
    intro c hc
    obtain ⟨r, hr, -⟩ := mem_resultsCols.mp hc
    obtain ⟨k, hk⟩ := List.mem_iff_getElem?.mp hr
    exact (h.cell hk hc).1
  cell := by
    intro r hr c hc
    obtain ⟨k, hk⟩ := List.mem_iff_getElem?.mp hr
    exact (h.cell hk hc).2.1

/-- The reader adds an index, and the file that is saved again has a column for it. -/
theorem index_mem (h : RoundTrips data) (hne : data.entries ≠ []) :
    "index" ∈ resultsCols data.entries := by
  obtain ⟨data', hload, hrows⟩ := h.loaded
  have hlen := hrows.length_eq
  have hpos : 0 < data'.entries.length := hlen ▸ List.length_pos_of_ne_nil hne
  have hindex : "index" ∈ resultsCols data'.entries := by
    refine mem_resultsCols.mpr ⟨_, List.getElem_mem hpos, ?_⟩
    obtain ⟨fields, -, -, hrow⟩ := exists_row_of_loaded hload (List.getElem?_eq_getElem hpos)
    rw [hrow]
    exact (AList.mem_insert _).mpr (Or.inl rfl)
  have hname : ∀ c ∈ resultsCols data'.entries, IsCell c.toList := by
    intro c hc
    obtain ⟨row, hrow, hmem⟩ := mem_resultsCols.mp hc
    obtain ⟨k, hk⟩ := List.mem_iff_getElem?.mp hrow
    obtain ⟨v, hv⟩ := Option.isSome_iff_exists.mp (AList.lookup_isSome.mpr hmem)
    exact (field_of_loaded hload hk hv).1
  -- saved again, the table has the same file, and so the same header
  have hheader : Csv.joinFields ((resultsCols data'.entries).map String.toList) =
      Csv.joinFields ((resultsCols data.entries).map String.toList) := by
    have hfile : data'.exportFile = data.exportFile := by
      have hresaved : (DataManager.init.loadFile data.exportFile).bind
          (fun data => some data.exportFile) = some data.exportFile := h.resaved 1
      rw [hload] at hresaved
      exact Option.some.inj hresaved
    rw [exportFile_eq, exportFile_eq] at hfile
    apply Csv.head_eq_of_unlines _ _ hfile
    · exact Csv.isLine_joinFields fun f hf => by
        obtain ⟨c, hc, rfl⟩ := List.mem_map.mp hf
        exact (hname c hc).2
    · exact Csv.isLine_joinFields fun f hf => by
        obtain ⟨c, hc, rfl⟩ := List.mem_map.mp hf
        exact (h.fields.name c hc).2
  obtain ⟨c, hc, heq⟩ : ∃ c ∈ resultsCols data.entries, c.toList = "index".toList := by
    rw [← List.mem_map]
    refine Csv.mem_of_joinFields_eq ?_ ?_ hheader (List.mem_map_of_mem hindex) (by decide)
    · intro f hf
      obtain ⟨c, hc, rfl⟩ := List.mem_map.mp hf
      exact (hname c hc).1
    · intro f hf
      obtain ⟨c, hc, rfl⟩ := List.mem_map.mp hf
      exact (h.fields.name c hc).1
  exact String.toList_inj.mp heq ▸ hc

/-- A column behind the first comes back with a blank before it. -/
theorem eq_index_of_mem_tail (h : RoundTrips data) (hne : data.entries ≠ [])
    (hc : c ∈ (resultsCols data.entries).tail) : c = "index" := by
  by_contra hindex
  obtain ⟨data', hload, hrows⟩ := h.loaded
  have hentries := entries_of_length h.fields (h.index_mem hne) hload hrows.length_eq.symm
  obtain ⟨hlen, hget⟩ := List.forall₂_iff_get.mp hrows
  have hpos : 0 < data.entries.length := List.length_pos_of_ne_nil hne
  have hrow := hget 0 hpos (hlen ▸ hpos) c (List.mem_of_mem_tail hc)
  have hread := getElem_numbered 0 (data.entries.map fun r =>
    toAdd (written r (resultsCols data.entries))) 0 (by rw [List.length_map]; exact hpos)
    (by rw [length_numbered, List.length_map]; exact hpos)
  rw [List.getElem_map] at hread
  simp only [List.get_eq_getElem, hentries, hread] at hrow
  rw [AList.lookup_insert_ne hindex, lookup_tail hc] at hrow
  have hblank := congrArg String.length (Option.some.inj hrow)
  simp [Value.toText, Values.single] at hblank

theorem firstColumnOnly (h : RoundTrips data) (hne : data.entries ≠ []) :
    FirstColumnOnly data.entries where
  toFields := h.fields
  index_mem := h.index_mem hne
  tail := fun _ hc => h.eq_index_of_mem_tail hne hc
  valid := by
    intro r hr c hc
    obtain ⟨k, hk⟩ := List.mem_iff_getElem?.mp hr
    exact (h.cell hk hc).2.2.1
  index := fun _ _ hk => (h.cell hk (h.index_mem hne)).2.2.2 rfl

end RoundTrips

/-- The file of an empty table has a blank header. -/
theorem roundTrips_of_nil {data : DataManager} (h : data.entries = []) : RoundTrips data := by
  have hcols : resultsCols [] = [] := List.mergeSort_nil
  have hfile : ∀ data : DataManager, data.entries = [] → data.exportFile = ['\n'] := by
    intro data h
    rw [exportFile_eq, h, hcols]
    rfl
  have hload : DataManager.init.loadFile ['\n'] = some .init := rfl
  refine ⟨⟨.init, hfile data h ▸ hload, ?_⟩, fun n => ?_⟩
  · rw [h]
    exact List.Forall₂.nil
  · rw [hfile data h]
    induction n with
    | zero => rfl
    | succ n ih => rw [resaved, hload, Option.bind_some, hfile .init rfl, ih]

/-- Whatever the table holds, its file comes back as it was exactly when there are no entries or
no columns behind the first but the index. -/
theorem roundTrips_iff (data : DataManager) :
    RoundTrips data ↔ data.entries = [] ∨ FirstColumnOnly data.entries := by
  constructor
  · intro h
    by_cases hne : data.entries = []
    · exact Or.inl hne
    · exact Or.inr (h.firstColumnOnly hne)
  · intro h
    rcases h with h | h
    · exact roundTrips_of_nil h
    · exact h.roundTrips

/-- A run that measured 12 cycles with 100 rules. -/
def oneMeasured : DataManager :=
  (DataManager.init.addEntry (AList.singleton "hs_avg_scan_time_cycles" (.single (.str "12")))
    (some (AList.singleton "n_rules" (.int 100))) true true).2

/-- The parameter is read as a blank and 100. -/
theorem not_roundTrips_oneMeasured : ¬ RoundTrips oneMeasured := by
  intro h
  have hcols : resultsCols oneMeasured.entries =
      ["hs_avg_scan_time_cycles", "index", "param_n_rules"] := by
    have hkeys : oneMeasured.entries.map AList.keys =
        [["param_n_rules", "index", "hs_avg_scan_time_cycles"]] := by decide
    apply resultsCols_eq (by decide)
    intro c
    have hmem : (∃ r ∈ oneMeasured.entries, c ∈ r) ↔
        ∃ ks ∈ oneMeasured.entries.map AList.keys, c ∈ ks := by
      simp [AList.mem_keys]
    rw [hmem, hkeys]
    simp only [List.mem_cons, List.not_mem_nil, or_false, exists_eq_left]
    grind
  have htail : "param_n_rules" ∈ (resultsCols oneMeasured.entries).tail := by
    rw [hcols]
    decide
  exact absurd (h.eq_index_of_mem_tail (by decide) htail) (by decide)

end Autotest
end PamoRxpBench
