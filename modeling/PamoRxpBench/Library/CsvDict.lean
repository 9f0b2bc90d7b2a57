import PamoRxpBench.Library.CsvExcel
import PamoRxpBench.Library.Dict

/-!
# Rows of `csv` as dictionaries

`csv.DictReader` and `csv.DictWriter`. A row that is too short has no values for the last names, and
one that is too long has a value without a name, with which it cannot be written.

* `dictReader_dictWriter`: rows that are written are read back, with empty fields for what is
  missing;
* `writeRows_takeWhile`: the rows up to the first one that is too long are written.
-/

namespace PamoRxpBench
namespace CsvExcel

/-- A row of `csv.DictReader`. A field that is missing is `None`. -/
@[ext]
structure DictRow where
  values : Dict Text (Option Text)
  /-- The value of the key `None`: the fields without a name. -/
  rest : List Text

/-- `csv.DictReader.__next__`. -/
def dictRow (names row : List Text) : DictRow where
  values := (names.drop row.length).foldl (fun d name => d.set name none)
    ((names.zip row).foldl (fun d p => d.set p.1 (some p.2)) .empty)
  rest := row.drop names.length

/-- `reader.fieldnames` and `list(reader)` of `csv.DictReader(file)`; `none` is an error. An empty
file has neither names nor rows. -/
def dictReader (file : Text) : Option (List Text × List DictRow) :=
  (reader file).map fun
    | [] => ([], [])
    | names :: rows => (names, (rows.filter fun row => row ≠ []).map (dictRow names))

/-- `csv.DictWriter._dict_to_list`; `none` is a `ValueError`. -/
def dictToList (names : List Text) (row : DictRow) : Option (List Text) :=
  if row.rest = [] ∧ row.values.keys.all names.contains then
    some (names.map fun name => (row.values.get? name).join.getD [])
  else none

/-- `writerow` for each row: the text that is written, and whether all rows are. -/
def writeRows (names : List Text) : List DictRow → Text × Bool
  | [] => ([], true)
  | row :: rows =>
    match dictToList names row with
    | none => ([], false)
    | some fields => (writeRow fields ++ (writeRows names rows).1, (writeRows names rows).2)

/-- `writeheader` and `writerow` for each row. -/
def dictWriter (names : List Text) (rows : List DictRow) : Text × Bool :=
  (writeRow names ++ (writeRows names rows).1, (writeRows names rows).2)

/-- A key is added to the keys of a dictionary. -/
def addKey (keys : List Text) (name : Text) : List Text :=
  if keys.elem name then keys else keys ++ [name]

@[simp]
theorem addKey_of_mem {keys : List Text} {name : Text} (h : name ∈ keys) :
    addKey keys name = keys :=
  if_pos (List.elem_iff.2 h)

@[simp]
theorem addKey_of_not_mem {keys : List Text} {name : Text} (h : name ∉ keys) :
    addKey keys name = keys ++ [name] :=
  if_neg fun helem => h (List.elem_iff.1 helem)

/-- Assignments one after the other add their keys in this order. -/
theorem keys_foldl_set {α ν : Type} (key : α → Text) (value : α → ν) (items : List α)
    (d : Dict Text ν) :
    (items.foldl (fun d a => d.set (key a) (value a)) d).keys =
      (items.map key).foldl addKey d.keys := by
  induction items generalizing d with
  | nil => rfl
  | cons a items ih =>
    rw [List.foldl_cons, ih, List.map_cons, List.foldl_cons]
    have hset : (d.set (key a) (value a)).keys = addKey d.keys (key a) := by
      refine (Dict.keys_setEntry (key a) (value a) d.entries).trans ?_
      by_cases hk : key a ∈ d.keys
      · rw [addKey_of_mem hk]
        exact if_pos hk
      · rw [addKey_of_not_mem hk]
        exact if_neg hk
    rw [hset]

/-- What is assigned from the key does not depend on the order. -/
theorem get?_foldl_set {ν : Type} (g : Text → ν) (names : List Text) (d : Dict Text ν)
    (k : Text) :
    (names.foldl (fun d name => d.set name (g name)) d).get? k =
      if k ∈ names then some (g k) else d.get? k := by
  induction names generalizing d with
  | nil => rfl
  | cons name names ih =>
    rw [List.foldl_cons, ih, Dict.get?_set]
    by_cases hk : k ∈ names
    · rw [if_pos hk, if_pos (List.mem_cons_of_mem _ hk)]
    · rw [if_neg hk]
      by_cases hname : name = k
      · rw [if_pos hname, if_pos (hname ▸ List.mem_cons_self), hname]
      · rw [if_neg hname, if_neg (List.not_mem_cons_of_ne_of_not_mem (Ne.symm hname) hk)]

theorem mem_foldl_addKey (names keys : List Text) (k : Text) :
    k ∈ names.foldl addKey keys ↔ k ∈ keys ∨ k ∈ names := by
  induction names generalizing keys with
  | nil => simp
  | cons name names ih =>
    rw [List.foldl_cons, ih, List.mem_cons]
    by_cases hname : name ∈ keys
    · rw [addKey_of_mem hname]
      constructor
      · intro h
        exact h.imp_right Or.inr
      · rintro (h | rfl | h)
        · exact Or.inl h
        · exact Or.inl hname
        · exact Or.inr h
    · rw [addKey_of_not_mem hname, List.mem_append, List.mem_singleton, or_assoc]

/-- The row has the names as its keys. -/
def DictRow.HasNames (names : List Text) (row : DictRow) : Prop :=
  row.values.keys = names.foldl addKey []

theorem map_fst_zip_eq_take (names row : List Text) :
    (names.zip row).map Prod.fst = names.take row.length := by
  induction names generalizing row with
  | nil => rw [List.zip_nil_left, List.take_nil, List.map_nil]
  | cons name names ih =>
    cases row with
    | nil => rfl
    | cons f row =>
      rw [List.zip_cons_cons, List.map_cons, ih, List.length_cons, List.take_succ_cons]

/-- Every row of a file has the names of the file, however long it is. -/
theorem hasNames_dictRow (names row : List Text) : (dictRow names row).HasNames names := by
  unfold DictRow.HasNames dictRow
  rw [keys_foldl_set (fun name => name) fun _ => none, keys_foldl_set Prod.fst fun p => some p.2,
    List.map_id', map_fst_zip_eq_take]
  show ((names.drop row.length).foldl addKey ((names.take row.length).foldl addKey [])) = _
  rw [← List.foldl_append, List.take_append_drop]

/-- The values of a row are its fields. -/
theorem mem_of_get?_dictRow {names row : List Text} {k v : Text}
    (h : (dictRow names row).values.get? k = some (some v)) : v ∈ row := by
  have hzip : ∀ (items : List (Text × Text)) (d : Dict Text (Option Text)),
      (∀ p ∈ items, p.2 ∈ row) → (∀ v, d.get? k = some (some v) → v ∈ row) →
      ∀ v, (items.foldl (fun d p => d.set p.1 (some p.2)) d).get? k = some (some v) → v ∈ row := by
    intro items
    induction items with
    | nil => exact fun _ _ hd => hd
    | cons p items ih =>
      intro d hitems hd
      apply ih _ fun q hq => hitems q (List.mem_cons_of_mem _ hq)
      intro w hw
      rw [Dict.get?_set] at hw
      by_cases hp : p.1 = k
      · rw [if_pos hp] at hw
        cases hw
        exact hitems p List.mem_cons_self
      · rw [if_neg hp] at hw
        exact hd w hw
  unfold dictRow at h
  rw [get?_foldl_set fun _ => none] at h
  by_cases hk : k ∈ names.drop row.length
  · rw [if_pos hk] at h
    cases h
  · rw [if_neg hk] at h
    exact hzip _ _ (fun p hp => (List.of_mem_zip hp).2) (fun w hw => by cases hw) v h

/-- A row that is read can be written unless it is too long. -/
theorem dictToList_eq_none_iff {names : List Text} {row : DictRow} (h : row.HasNames names) :
    dictToList names row = none ↔ row.rest ≠ [] := by
  have hkeys : row.values.keys.all names.contains = true := by
    rw [List.all_eq_true]
    intro k hk
    rw [h, mem_foldl_addKey] at hk
    exact List.contains_iff_mem.mpr (hk.resolve_left List.not_mem_nil)
  unfold dictToList
  by_cases hrest : row.rest = []
  · rw [if_pos ⟨hrest, hkeys⟩]
    exact iff_of_false (Option.some_ne_none _) (not_not_intro hrest)
  · rw [if_neg fun hand => hrest hand.1]
    exact iff_of_true rfl hrest

/-- The rows up to the first one that is too long are written. -/
theorem writeRows_takeWhile {names : List Text} {rows : List DictRow}
    (hrows : ∀ row ∈ rows, row.HasNames names) :
    (writeRows names (rows.takeWhile fun row => row.rest = [])).2 = true ∧
      (writeRows names rows).1 = (writeRows names (rows.takeWhile fun row => row.rest = [])).1 ∧
      ((writeRows names rows).2 = true ↔ rows.takeWhile (fun row => row.rest = []) = rows) := by
  induction rows with
  | nil => exact ⟨rfl, rfl, iff_of_true rfl rfl⟩
  | cons row rows ih =>
    obtain ⟨hkept, htext, hall⟩ := ih fun r hr => hrows r (List.mem_cons_of_mem _ hr)
    have hiff := dictToList_eq_none_iff (hrows row List.mem_cons_self)
    rw [List.takeWhile_cons]
    by_cases hrest : row.rest = []
    · rw [if_pos (decide_eq_true hrest)]
      cases hrow : dictToList names row with
      | none => exact absurd hrest (hiff.mp hrow)
      | some fields =>
        rw [writeRows, writeRows, hrow]
        refine ⟨hkept, congrArg (writeRow fields ++ ·) htext, ?_⟩
        rw [List.cons.injEq, and_iff_right rfl]
        exact hall
    · have hstop : writeRows names (row :: rows) = ([], false) := by
        rw [writeRows, hiff.mpr hrest]
      rw [if_neg (by rw [decide_eq_true_eq]; exact hrest), hstop]
      exact ⟨rfl, rfl, iff_of_false Bool.false_ne_true (List.cons_ne_nil _ _).symm⟩

/-- The row with empty fields for what is missing. -/
def DictRow.filled (row : DictRow) : DictRow where
  values := row.values.mapValues fun v => some (v.getD [])
  rest := row.rest

/-- The fields that are written make up the row again. -/
theorem dictRow_dictToList {names fields : List Text} {row : DictRow} (hnames : row.HasNames names)
    (h : dictToList names row = some fields) : dictRow names fields = row.filled := by
  unfold dictToList at h
  by_cases hrest : row.rest = [] ∧ row.values.keys.all names.contains
  · rw [if_pos hrest] at h
    have hfields := Option.some.inj h
    have hlength : fields.length = names.length := by rw [← hfields, List.length_map]
    have hzip : names.zip fields = names.map fun name =>
        (name, (row.values.get? name).join.getD []) := by
      have hmap := List.zip_map' (f := fun name => name) (l := names)
        (g := fun name => (row.values.get? name).join.getD [])
      rwa [List.map_id', hfields] at hmap
    have hvalues : (dictRow names fields).values = row.filled.values := by
      apply Dict.ext_of_get?
      · rw [hasNames_dictRow names fields]
        exact ((Dict.keys_mapValues _ row.values).trans hnames).symm
      · intro k hk
        have hmem : k ∈ names := by
          rw [hasNames_dictRow names fields, mem_foldl_addKey] at hk
          exact hk.resolve_left List.not_mem_nil
        have hkeys : k ∈ row.values.keys := by
          rw [hnames, mem_foldl_addKey]
          exact Or.inr hmem
        obtain ⟨v, hv⟩ := Dict.exists_get?_of_mem hkeys
        unfold dictRow DictRow.filled
        rw [hlength, List.drop_length, hzip, List.foldl_nil, List.foldl_map, get?_foldl_set,
          if_pos hmem, Dict.get?_mapValues, hv]
        rfl
    have hrest' : (dictRow names fields).rest = row.filled.rest := by
      show fields.drop names.length = row.rest
      rw [hrest.1, List.drop_eq_nil_of_le (Nat.le_of_eq hlength)]
    exact DictRow.ext hvalues hrest'
  · rw [if_neg hrest] at h
    cases h

/-- Rows that are written are read back, with empty fields for what is missing. -/
theorem dictReader_dictWriter {names : List Text} {rows : List DictRow} {file : Text}
    (hnames : ∀ name ∈ names, name.length ≤ fieldSizeLimit) (hne : rows ≠ [] → names ≠ [])
    (hrows : ∀ row ∈ rows, row.HasNames names)
    (hlen : ∀ row ∈ rows, ∀ k v, row.values.get? k = some (some v) → v.length ≤ fieldSizeLimit)
    (h : dictWriter names rows = (file, true)) :
    dictReader file = some (names, rows.map DictRow.filled) := by
  -- no row was refused, so each has its record
  have hwrite : ∃ records, file = writer (names :: records) ∧
      List.Forall₂ (fun row fields => dictToList names row = some fields) rows records := by
    have hall : ∀ rows : List DictRow, (writeRows names rows).2 = true →
        ∃ records, (writeRows names rows).1 = writer records ∧
          List.Forall₂ (fun row fields => dictToList names row = some fields) rows records := by
      intro rows
      induction rows with
      | nil => exact fun _ => ⟨[], rfl, .nil⟩
      | cons row rows ih =>
        rw [writeRows]
        cases hrow : dictToList names row with
        | none => exact fun hall => absurd hall Bool.false_ne_true
        | some fields =>
          intro hall
          obtain ⟨records, htext, hrecords⟩ := ih hall
          exact ⟨fields :: records, congrArg (writeRow fields ++ ·) htext, .cons hrow hrecords⟩
    obtain ⟨records, htext, hrecords⟩ := hall rows (congrArg Prod.snd h)
    have hfile := congrArg Prod.fst h
    exact ⟨records, hfile.symm.trans (congrArg (writeRow names ++ ·) htext), hrecords⟩
  obtain ⟨records, hfile, hrecords⟩ := hwrite
  -- a record is not empty, and the reader takes its fields
  have hfields : ∀ fields ∈ records, fields ≠ [] ∧ ∀ f ∈ fields, f.length ≤ fieldSizeLimit := by
    intro fields hmem
    obtain ⟨row, hrow, hdict⟩ : ∃ row ∈ rows, dictToList names row = some fields := by
      clear hfile hlen hrows h hne
      induction hrecords with
      | nil => exact absurd hmem List.not_mem_nil
      | cons hrow _ ih =>
        rcases List.mem_cons.mp hmem with rfl | hmem
        · exact ⟨_, List.mem_cons_self, hrow⟩
        · obtain ⟨row, hmem, hdict⟩ := ih hmem
          exact ⟨row, List.mem_cons_of_mem _ hmem, hdict⟩
    unfold dictToList at hdict
    split at hdict
    · cases hdict
      refine ⟨fun hnil => hne (List.ne_nil_of_mem hrow) (List.map_eq_nil_iff.mp hnil), ?_⟩
      intro f hf
      obtain ⟨name, -, rfl⟩ := List.mem_map.mp hf
      cases hvalue : row.values.get? name with
      | none => exact Nat.zero_le _
      | some v =>
        cases v with
        | none => exact Nat.zero_le _
        | some v => exact hlen row hrow name v hvalue
    · cases hdict
  have hread : reader file = some (names :: records) := by
    rw [hfile]
    apply reader_writer
    intro fields hmem
    rcases List.mem_cons.mp hmem with rfl | hmem
    · exact hnames
    · exact (hfields fields hmem).2
  have hfilter : records.filter (fun row => row ≠ []) = records :=
    List.filter_eq_self.mpr fun fields hmem => decide_eq_true (hfields fields hmem).1
  -- each record is read back as the row that it was printed from
  have hmap : records.map (dictRow names) = rows.map DictRow.filled := by
    clear hfile hfields hread hfilter hlen h hne
    induction hrecords with
    | nil => rfl
    | cons hrow _ ih =>
      rw [List.map_cons, List.map_cons, dictRow_dictToList (hrows _ List.mem_cons_self) hrow,
        ih fun row hr => hrows row (List.mem_cons_of_mem _ hr)]
  rw [dictReader, hread]
  show some (names, (records.filter _).map (dictRow names)) = _
  rw [hfilter, hmap]

/-- What `csv.DictReader` returns: the names are the keys of every row, no field is longer than the
limit, and without names every row is too long. -/
structure Readable (names : List Text) (rows : List DictRow) : Prop where
  names_le : ∀ name ∈ names, name.length ≤ fieldSizeLimit
  hasNames : ∀ row ∈ rows, row.HasNames names
  values_le : ∀ row ∈ rows, ∀ k v, row.values.get? k = some (some v) → v.length ≤ fieldSizeLimit
  names_ne : ∀ row ∈ rows, row.rest = [] → names ≠ []

/-- What was read can be read again: its fields are within the limit. -/
theorem readable_of_dictReader {file : Text} {names : List Text} {rows : List DictRow}
    (h : dictReader file = some (names, rows)) : Readable names rows := by
  obtain ⟨records, hread, hrecords⟩ := Option.map_eq_some_iff.mp h
  have hlen := length_le_of_reader hread
  cases records with
  | nil =>
    cases hrecords
    exact ⟨fun _ hn => absurd hn List.not_mem_nil, fun _ hr => absurd hr List.not_mem_nil,
      fun _ hr => absurd hr List.not_mem_nil, fun _ hr => absurd hr List.not_mem_nil⟩
  | cons header records =>
    cases hrecords
    refine ⟨hlen names List.mem_cons_self, fun row hr => ?_, fun row hr k v hv => ?_,
      fun row hr hrest hnil => ?_⟩
    · obtain ⟨fields, -, rfl⟩ := List.mem_map.mp hr
      exact hasNames_dictRow names fields
    · obtain ⟨fields, hfields, rfl⟩ := List.mem_map.mp hr
      have hfields := hlen fields (List.mem_cons_of_mem _ (List.mem_of_mem_filter hfields))
      exact hfields v (mem_of_get?_dictRow hv)
    · obtain ⟨fields, hfields, rfl⟩ := List.mem_map.mp hr
      have hempty : fields = [] := by
        rwa [hnil] at hrest
      exact absurd hempty (of_decide_eq_true (List.mem_filter.mp hfields).2)

end CsvExcel
end PamoRxpBench
