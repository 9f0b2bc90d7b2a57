import PamoRxpBench.Autotest.CsvEdit

/-!
# What `csvedit.py` leaves in its file

The file is read back with the rows that match changed in the fields that are set, and nothing else
but that a missing field is now an empty one. A row with more fields than there are names cannot be
written, and with it all rows behind it are lost (`csvedit_writes`).
-/

namespace PamoRxpBench
namespace Autotest

open CsvExcel

/-- The row after the command. -/
def edited (conditions updates : Dict Text Text) (row : DictRow) : DictRow :=
  if rowMatches row conditions = some true then updateRow updates row else row

/-! ## One row -/

/-- An assignment changes a field that is there, and makes none. -/
theorem get?_assign (d : Dict Text (Option Text)) (e : Text × Text) (k : Text) :
    (if (d.get? e.1).isSome then d.set e.1 (some e.2) else d).get? k =
      (d.get? k).map fun old => if e.1 = k then some e.2 else old := by
  by_cases hkey : e.1 = k
  · subst hkey
    cases hold : d.get? e.1 with
    | none => exact hold
    | some old =>
      rw [if_pos (by rfl), Dict.get?_set, if_pos rfl, Option.map_some, if_pos rfl]
  · simp only [if_neg hkey, Option.map_id']
    split
    · rw [Dict.get?_set, if_neg hkey]
    · rfl

/-- A field of an updated row. -/
theorem get?_updateRow (updates : Dict Text Text) (row : DictRow) (k : Text) :
    (updateRow updates row).values.get? k =
      (row.values.get? k).map fun old => ((updates.get? k).map some).getD old := by
  have hfold : ∀ (es : List (Text × Text)) (d : Dict Text (Option Text)),
      (es.map Prod.fst).Nodup →
      (es.foldl (fun d e => if (d.get? e.1).isSome then d.set e.1 (some e.2) else d) d).get? k =
        (d.get? k).map fun old => ((Dict.find k es).map some).getD old := by
    intro es
    induction es with
    | nil =>
      intro d _
      exact Option.map_id'.symm
    | cons e es ih =>
      intro d hnodup
      rw [List.map_cons, List.nodup_cons] at hnodup
      rw [List.foldl_cons, ih _ hnodup.2, get?_assign, Option.map_map, Dict.find]
      by_cases hkey : e.1 = k
      · -- the key comes once
        have hfind : Dict.find k es = none := by
          cases hvalue : Dict.find k es with
          | none => rfl
          | some v => exact absurd (hkey ▸ Dict.mem_of_find hvalue) hnodup.1
        simp only [if_pos hkey, hfind]
        rfl
      · simp only [if_neg hkey]
        rfl
  exact hfold updates.entries row.values updates.nodup

theorem keys_assign (d : Dict Text (Option Text)) (e : Text × Text) :
    (if (d.get? e.1).isSome then d.set e.1 (some e.2) else d).keys = d.keys := by
  split
  · rename_i hsome
    obtain ⟨v, hv⟩ := Option.isSome_iff_exists.mp hsome
    refine (Dict.keys_setEntry e.1 (some e.2) d.entries).trans ?_
    exact if_pos (Dict.mem_of_find hv)
  · rfl

theorem hasNames_edited {names : List Text} {conditions updates : Dict Text Text} {row : DictRow}
    (h : row.HasNames names) : (edited conditions updates row).HasNames names := by
  have hkeys : ∀ (es : List (Text × Text)) (d : Dict Text (Option Text)),
      (es.foldl (fun d e => if (d.get? e.1).isSome then d.set e.1 (some e.2) else d) d).keys =
        d.keys := by
    intro es
    induction es with
    | nil => exact fun _ => rfl
    | cons e es ih =>
      intro d
      rw [List.foldl_cons, ih, keys_assign]
  unfold edited
  split
  · exact (hkeys updates.entries row.values).trans h
  · exact h

theorem rest_edited (conditions updates : Dict Text Text) (row : DictRow) :
    (edited conditions updates row).rest = row.rest := by
  unfold edited
  split <;> rfl

/-- A field of a row after the command. -/
theorem get?_edited (conditions updates : Dict Text Text) (row : DictRow) (k : Text) :
    (edited conditions updates row).values.get? k = (row.values.get? k).map fun old =>
      if rowMatches row conditions = some true then ((updates.get? k).map some).getD old
      else old := by
  unfold edited
  by_cases hmatch : rowMatches row conditions = some true
  · simp only [if_pos hmatch]
    exact get?_updateRow updates row k
  · simp only [if_neg hmatch]
    exact Option.map_id'.symm

/-! ## All rows -/

/-- The loop edits each row for itself, and counts those that match. -/
theorem updateRows_eq {conditions updates : Dict Text Text} {rows rows' : List DictRow} {n : ℕ}
    (h : updateRows conditions updates rows = some (rows', n)) :
    rows' = rows.map (edited conditions updates) ∧
      n = rows.countP fun row => rowMatches row conditions = some true := by
  induction rows generalizing rows' n with
  | nil =>
    cases h
    exact ⟨rfl, rfl⟩
  | cons row rows ih =>
    obtain ⟨found, hfound, h⟩ := Option.bind_eq_some_iff.mp h
    obtain ⟨⟨rest, m⟩, hrest, h⟩ := Option.bind_eq_some_iff.mp h
    obtain ⟨hrows, hcount⟩ := ih hrest
    rw [List.map_cons, List.countP_cons, edited, hfound]
    cases found with
    | true =>
      cases h
      rw [if_pos rfl, if_pos (by rfl), hrows, hcount]
      exact ⟨rfl, rfl⟩
    | false =>
      cases h
      rw [if_neg (by decide), if_neg (by decide), hrows, hcount]
      exact ⟨rfl, rfl⟩

/-- The values of the dictionary are among those that were given. -/
theorem exists_of_get?_toDict {pairs : List (Text × Text)} {k v : Text}
    (h : (toDict pairs).get? k = some v) : ∃ p ∈ pairs, p.2 = v := by
  have hfold : ∀ (items : List (Text × Text)) (d : Dict Text Text),
      (items.foldl (fun d p => d.set p.1 p.2) d).get? k = some v →
      (∃ p ∈ items, p.2 = v) ∨ d.get? k = some v := by
    intro items
    induction items with
    | nil => exact fun _ hd => Or.inr hd
    | cons p items ih =>
      intro d hd
      rcases ih _ hd with ⟨q, hq, hv⟩ | hset
      · exact Or.inl ⟨q, List.mem_cons_of_mem _ hq, hv⟩
      · rw [Dict.get?_set] at hset
        by_cases hp : p.1 = k
        · rw [if_pos hp] at hset
          exact Or.inl ⟨p, List.mem_cons_self, Option.some.inj hset⟩
        · rw [if_neg hp] at hset
          exact Or.inr hset
  rcases hfold pairs .empty h with hmem | hempty
  · exact hmem
  · cases hempty

/-- What the command has written when it comes to its end. -/
theorem csvedit_cases {file : Text} {query set : List (Text × Text)} {out : Text}
    (h : (csvedit file query set).written? = some out) :
    ∃ names rows, dictReader file = some (names, rows) ∧
      out = (dictWriter names (rows.map (edited (toDict query) (toDict set)))).1 ∧
      csvedit file query set =
        if (dictWriter names (rows.map (edited (toDict query) (toDict set)))).2 then
          .saved (rows.countP fun row => rowMatches row (toDict query) = some true) out
        else .writeError out := by
  unfold csvedit at h ⊢
  cases hread : dictReader file with
  | none =>
    rw [hread] at h
    cases h
  | some table =>
    obtain ⟨names, rows⟩ := table
    rw [hread] at h
    dsimp only at h ⊢
    refine ⟨names, rows, rfl, ?_⟩
    cases hmatching : matchingRows (toDict query) rows with
    | none =>
      rw [hmatching] at h
      cases h
    | some matching =>
      cases matching with
      | nil =>
        rw [hmatching] at h
        cases h
      | cons row matching =>
        rw [hmatching] at h
        dsimp only at h ⊢
        -- without a set the rows are only shown
        by_cases hset : set = []
        · rw [if_pos hset] at h
          split at h <;> cases h
        · rw [if_neg hset] at h ⊢
          cases hupdate : updateRows (toDict query) (toDict set) rows with
          | none =>
            rw [hupdate] at h
            cases h
          | some result =>
            obtain ⟨rows', n⟩ := result
            obtain ⟨rfl, rfl⟩ := updateRows_eq hupdate
            rw [hupdate] at h
            dsimp only at h ⊢
            generalize matchingRows (toDict query) (rows.map _) = changed at h ⊢
            cases changed with
            | none => cases h
            | some changed =>
              dsimp only at h ⊢
              -- the changed rows are printed before the file is written
              by_cases hprinted : (dictWriter names changed).2 = true
              · rw [if_pos hprinted] at h ⊢
                split at h
                · rename_i hall
                  cases h
                  exact ⟨rfl, by rw [if_pos hall]⟩
                · rename_i hall
                  cases h
                  exact ⟨rfl, by rw [if_neg hall]⟩
              · rw [if_neg hprinted] at h
                cases h

/-! ## What is read back -/

section Edited

variable {names : List Text} {rows : List DictRow} {conditions updates : Dict Text Text}

/-- Editing makes no row longer, so it stops at the same row. -/
theorem takeWhile_map_edited (rows : List DictRow) :
    (rows.map (edited conditions updates)).takeWhile (fun row => row.rest = []) =
      (rows.takeWhile fun row => row.rest = []).map (edited conditions updates) := by
  rw [List.takeWhile_map]
  congr 2
  funext row
  exact decide_eq_decide.mpr (by rw [rest_edited])

theorem takeWhile_map_edited_eq_self_iff :
    (rows.map (edited conditions updates)).takeWhile (fun row => row.rest = []) =
        rows.map (edited conditions updates) ↔
      ∀ row ∈ rows, row.rest = [] := by
  rw [List.takeWhile_eq_self_iff, List.forall_mem_map]
  simp only [rest_edited, decide_eq_true_eq]

/-- The fields of an edited row are old ones or new values. -/
theorem length_le_of_get?_edited (hupdates : ∀ k v, updates.get? k = some v →
      v.length ≤ fieldSizeLimit) {row : DictRow}
    (hrow : ∀ k v, row.values.get? k = some (some v) → v.length ≤ fieldSizeLimit) {k v : Text}
    (h : (edited conditions updates row).values.get? k = some (some v)) :
    v.length ≤ fieldSizeLimit := by
  rw [get?_edited] at h
  obtain ⟨old, hold, h⟩ := Option.map_eq_some_iff.mp h
  have hkept : old = some v → v.length ≤ fieldSizeLimit := by
    rintro rfl
    exact hrow k v hold
  split at h
  · cases hnew : updates.get? k with
    | none =>
      rw [hnew] at h
      exact hkept h
    | some w =>
      rw [hnew] at h
      exact Option.some.inj h ▸ hupdates k w hnew
  · exact hkept h

/-- Edited rows of a file can be read. -/
theorem readable_edited (h : Readable names rows) (hupdates : ∀ k v, updates.get? k = some v →
    v.length ≤ fieldSizeLimit) : Readable names (rows.map (edited conditions updates)) where
  names_le := h.names_le
  hasNames := List.forall_mem_map.mpr fun row hrow => hasNames_edited (h.hasNames row hrow)
  values_le := List.forall_mem_map.mpr fun row hrow _ _ hv =>
    length_le_of_get?_edited hupdates (h.values_le row hrow) hv
  names_ne := List.forall_mem_map.mpr fun row hrow hrest =>
    h.names_ne row hrow ((rest_edited conditions updates row).symm.trans hrest)

end Edited

/-- What the command writes, for the values of its arguments. -/
theorem csvedit_written {file : Text} {query set : List (Text × Text)} {out : Text}
    (hset : ∀ p ∈ set, p.2.length ≤ fieldSizeLimit)
    (h : (csvedit file query set).written? = some out) :
    ∃ names rows, dictReader file = some (names, rows) ∧
      dictReader out = some (names, ((rows.takeWhile fun row => row.rest = []).map
        (edited (toDict query) (toDict set))).map DictRow.filled) ∧
      (∀ row ∈ rows, ∀ k, (edited (toDict query) (toDict set) row).values.get? k =
        (row.values.get? k).map fun old =>
          if rowMatches row (toDict query) = some true then
            (((toDict set).get? k).map some).getD old
          else old) ∧
      (csvedit file query set =
        .saved (rows.countP fun row => rowMatches row (toDict query) = some true) out ↔
          ∀ row ∈ rows, row.rest = []) := by
  obtain ⟨names, rows, hread, rfl, hexit⟩ := csvedit_cases h
  have hupdates : ∀ k v, (toDict set).get? k = some v → v.length ≤ fieldSizeLimit := by
    intro k v hv
    obtain ⟨p, hp, rfl⟩ := exists_of_get?_toDict hv
    exact hset p hp
  have hreadable : Readable names (rows.map (edited (toDict query) (toDict set))) :=
    readable_edited (readable_of_dictReader hread) hupdates
  obtain ⟨hkept, htext, hall⟩ := writeRows_takeWhile hreadable.hasNames
  refine ⟨names, rows, hread, ?_, fun row _ k => get?_edited _ _ row k, ?_⟩
  · -- the rows before the first long one are written, and these are read back
    have hpart : ((rows.map (edited (toDict query) (toDict set))).takeWhile
        fun row => row.rest = []) <+: rows.map (edited (toDict query) (toDict set)) :=
      List.takeWhile_prefix _
    rw [← takeWhile_map_edited]
    refine dictReader_dictWriter hreadable.names_le ?_ ?_ ?_
      (Prod.ext (congrArg (writeRow names ++ ·) htext.symm) hkept)
    · intro hne
      obtain ⟨row, hrow⟩ := List.exists_mem_of_ne_nil _ hne
      exact hreadable.names_ne row (hpart.subset hrow)
        (of_decide_eq_true (List.mem_takeWhile_imp (p := fun row : DictRow => row.rest = []) hrow))
    · exact fun row hrow => hreadable.hasNames row (hpart.subset hrow)
    · exact fun row hrow => hreadable.values_le row (hpart.subset hrow)
  · rw [← takeWhile_map_edited_eq_self_iff, ← hall, hexit]
    show (if (writeRows names _).2 = true then _ else _) = _ ↔ _
    split
    · rename_i hsaved
      exact iff_of_true rfl hsaved
    · rename_i hfailed
      exact iff_of_false EditExit.noConfusion hfailed

theorem exists_of_mem_mapM {α β : Type} {f : α → Option β} {l : List α} {l' : List β}
    (h : l.mapM f = some l') {b : β} (hb : b ∈ l') : ∃ a ∈ l, f a = some b := by
  induction l generalizing l' with
  | nil =>
    rw [← Option.some.inj h] at hb
    exact absurd hb List.not_mem_nil
  | cons a l ih =>
    rw [List.mapM_cons] at h
    obtain ⟨c, hc, h⟩ := Option.bind_eq_some_iff.mp h
    obtain ⟨cs, hcs, h⟩ := Option.bind_eq_some_iff.mp h
    rw [← Option.some.inj h] at hb
    rcases List.mem_cons.mp hb with rfl | hb
    · exact ⟨a, List.mem_cons_self, hc⟩
    · obtain ⟨a', ha', hfa'⟩ := ih hcs hb
      exact ⟨a', List.mem_cons_of_mem a ha', hfa'⟩

/-- Whatever the file and the arguments are, where the command writes its file, the file is read
back with the same names, and with the rows up to the first one that has more fields than there are
names: in these the fields that are set have their new values where the row matches, and the others
their old ones, or nothing if they were missing. All rows are saved if and only if none is too long;
else the command fails, and the rest of the file is lost. -/
theorem csvedit_writes {file : Text} {query set : List Text} {exit : EditExit} {out : Text}
    (hset : ∀ item ∈ set, ∀ p, parseKeyValue item = some p → p.2.length ≤ fieldSizeLimit)
    (hmain : csveditMain file query set = some exit) (h : exit.written? = some out) :
    ∃ conditions updates names rows, query.mapM parseKeyValue = some conditions ∧
      set.mapM parseKeyValue = some updates ∧ dictReader file = some (names, rows) ∧
      dictReader out = some (names, ((rows.takeWhile fun row => row.rest = []).map
        (edited (toDict conditions) (toDict updates))).map DictRow.filled) ∧
      (∀ row ∈ rows, ∀ k, (edited (toDict conditions) (toDict updates) row).values.get? k =
        (row.values.get? k).map fun old =>
          if rowMatches row (toDict conditions) = some true then
            (((toDict updates).get? k).map some).getD old
          else old) ∧
      (exit = .saved (rows.countP fun row => rowMatches row (toDict conditions) = some true) out ↔
        ∀ row ∈ rows, row.rest = []) := by
  obtain ⟨conditions, hconditions, hmain⟩ := Option.bind_eq_some_iff.mp hmain
  obtain ⟨updates, hupdates, hmain⟩ := Option.bind_eq_some_iff.mp hmain
  rw [← Option.some.inj hmain] at h ⊢
  have hvalues : ∀ p ∈ updates, p.2.length ≤ fieldSizeLimit := by
    intro p hp
    obtain ⟨item, hitem, hparse⟩ := exists_of_mem_mapM hupdates hp
    exact hset item hitem p hparse
  obtain ⟨names, rows, hwritten⟩ := csvedit_written hvalues h
  exact ⟨conditions, updates, names, rows, hconditions, hupdates, hwritten⟩

/-- The last row has a field more than the header. -/
def quotedFile : Text := "a,b\n1,\"x,y\"\n2,z\n3,4,5\n".toList

/-- The second row is changed, to a value that has to be quoted. -/
theorem csvedit_writes_quotedFile :
    ∃ exit out names rows,
      csveditMain quotedFile ["a=2".toList] ["b = \"".toList] = some exit ∧
        exit.written? = some out ∧ dictReader quotedFile = some (names, rows) ∧
          dictReader out = some (names, ((rows.takeWhile fun row => row.rest = []).map
            (edited (toDict [(['a'], ['2'])]) (toDict [(['b'], ['"'])]))).map DictRow.filled) := by
  have hset : ∀ item ∈ ["b = \"".toList], ∀ p, parseKeyValue item = some p →
      p.2.length ≤ fieldSizeLimit := by
    intro item hitem p hp
    rw [List.mem_singleton.mp hitem] at hp
    rw [← Option.some.inj hp]
    decide
  have hmain : csveditMain quotedFile ["a=2".toList] ["b = \"".toList] =
      some (csvedit quotedFile [(['a'], ['2'])] [(['b'], ['"'])]) := rfl
  obtain ⟨conditions, updates, names, rows, hconditions, hupdates, hread, hout, -⟩ :=
    csvedit_writes hset hmain (rfl : EditExit.written? _ = some _)
  rw [← Option.some.inj hconditions, ← Option.some.inj hupdates] at hout
  exact ⟨_, _, names, rows, hmain, rfl, hread, hout⟩

example : csvedit quotedFile [(['a'], ['2'])] [(['b'], ['"'])] =
    .writeError "a,b\r\n1,\"x,y\"\r\n2,\"\"\"\"\r\n".toList := by rfl

end Autotest
end PamoRxpBench
