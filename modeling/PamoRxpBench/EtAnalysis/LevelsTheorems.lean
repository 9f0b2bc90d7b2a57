import PamoRxpBench.EtAnalysis.Met7

/-!
# `et-analysis`: the levels of a document

`recursive_extract_groups` walks through the whole document, and `extract_groups` goes down a
dotted path first. The levels that `analyze_levels` makes from both fit together
(`analyzeLevels_partition`): the global level is made of the levels of the keys, the level of a
key of those of its sub-keys, and every rule group is listed once.
-/

namespace PamoRxpBench
namespace EtAnalysis

open Json (field nodeAt DistinctKeys)

/-! ## One node -/

theorem readGroup_path {path : List Text} {node : List (Text × Json)} {rulegroup : Json}
    {group : Group} (h : readGroup path node rulegroup = some group) : group.path = path := by
  simp only [readGroup, Option.bind_eq_bind, Option.bind_eq_some_iff] at h
  obtain ⟨_, _, _, _, _, _, _, _, h⟩ := h
  exact (congrArg Group.path (Option.some.inj h)).symm

/-- Only the path of a group depends on where it is found. -/
theorem readGroup_eq (path : List Text) (node : List (Text × Json)) (rulegroup : Json) :
    readGroup path node rulegroup =
      (readGroup [] node rulegroup).map fun group => { group with path := path } := by
  simp only [readGroup, Option.bind_eq_bind, Option.map_bind, Function.comp_def]
  rfl

/-- The rule group of the node to which `sub` leads from `j`, recorded with `path` before `sub`. -/
def GroupAt (path sub : List Text) (j : Json) (group : Group) : Prop :=
  ∃ node rulegroup, nodeAt sub j = some (.obj node) ∧
    field "rulegroup".toList node = some rulegroup ∧
    readGroup (path ++ sub) node rulegroup = some group

theorem GroupAt.path_eq {path sub : List Text} {j : Json} {group : Group}
    (h : GroupAt path sub j group) : group.path = path ++ sub := by
  obtain ⟨_, _, _, _, hread⟩ := h
  exact readGroup_path hread

/-- A group behind a step is a group of the child. -/
theorem groupAt_cons_iff {j : Json} (hj : DistinctKeys j) {path sub : List Text} {step : Text}
    {group : Group} :
    GroupAt path (step :: sub) j group ↔
      ∃ c ∈ j.children, c.1 = step ∧ GroupAt (path ++ [step]) sub c.2 group := by
  unfold GroupAt
  simp only [Json.nodeAt_cons_iff hj, List.append_assoc, List.singleton_append]
  constructor
  · rintro ⟨node, rulegroup, ⟨c, hc, hstep, hnode⟩, hrest⟩
    exact ⟨c, hc, hstep, node, rulegroup, hnode, hrest⟩
  · rintro ⟨c, hc, hstep, node, rulegroup, hnode, hrest⟩
    exact ⟨node, rulegroup, ⟨c, hc, hstep, hnode⟩, hrest⟩

/-- The group of a node itself, if it has one. -/
def nodeGroups (path : List Text) : Json → Option (List Group)
  | .obj fields => ownGroups path fields
  | _ => some []

/-- A node has the group that its `rulegroup` gives. -/
theorem mem_ownGroups_iff {path : List Text} {fields : List (Text × Json)} {own : List Group}
    (h : ownGroups path fields = some own) {group : Group} :
    group ∈ own ↔ ∃ rulegroup, field "rulegroup".toList fields = some rulegroup ∧
      readGroup path fields rulegroup = some group := by
  rw [ownGroups] at h
  cases hfield : field "rulegroup".toList fields with
  | none =>
    rw [hfield] at h
    rw [← Option.some.inj h]
    exact iff_of_false List.not_mem_nil fun ⟨_, hkey, _⟩ => nomatch hkey
  | some rulegroup =>
    rw [hfield] at h
    obtain ⟨g, hg, rfl⟩ := Option.map_eq_some_iff.mp h
    rw [List.mem_singleton]
    constructor
    · rintro rfl
      exact ⟨rulegroup, rfl, hg⟩
    · rintro ⟨rulegroup', hkey, hread⟩
      rw [← Option.some.inj hkey] at hread
      exact Option.some.inj (hread.symm.trans hg)

/-- The groups of a node are those at the empty path behind it. -/
theorem mem_nodeGroups_iff {path : List Text} {j : Json} {own : List Group}
    (h : nodeGroups path j = some own) {group : Group} :
    group ∈ own ↔ GroupAt path [] j group := by
  unfold GroupAt
  rw [List.append_nil]
  cases j with
  | obj fields =>
    rw [mem_ownGroups_iff h]
    constructor
    · rintro ⟨rulegroup, hkey, hread⟩
      exact ⟨fields, rulegroup, rfl, hkey, hread⟩
    · rintro ⟨node, rulegroup, hnode, hkey, hread⟩
      obtain rfl := Json.obj.inj (Option.some.inj hnode)
      exact ⟨rulegroup, hkey, hread⟩
  | null | bool b | num q | str s | arr items =>
    rw [← Option.some.inj h]
    refine iff_of_false List.not_mem_nil ?_
    rintro ⟨node, rulegroup, hnode, -⟩
    exact nomatch hnode

/-- A node has one group at most. -/
theorem length_nodeGroups {path : List Text} {j : Json} {own : List Group}
    (h : nodeGroups path j = some own) : own.length ≤ 1 := by
  unfold nodeGroups ownGroups at h
  split at h
  · split at h
    · obtain ⟨g, -, rfl⟩ := Option.map_eq_some_iff.mp h
      exact le_refl _
    · rw [← Option.some.inj h]
      exact Nat.zero_le _
  · rw [← Option.some.inj h]
    exact Nat.zero_le _

/-! ## The traversal -/

theorem extractItems_eq (path : List Text) (idx : ℕ) (items : List Json) :
    extractItems path idx items =
      extractFields path ((items.zipIdx idx).map fun x => (Text.decimal x.2, x.1)) := by
  induction items generalizing idx with
  | nil => rfl
  | cons item items ih =>
    rw [extractItems, ih, List.zipIdx_cons, List.map_cons, extractFields]

/-- The traversal visits the node, and then the nodes below it in their order. -/
theorem recursiveExtractGroups_eq (path : List Text) (j : Json) :
    recursiveExtractGroups path j = (nodeGroups path j).bind fun own =>
      (extractFields path j.children).map fun below => own ++ below := by
  cases j with
  | obj fields =>
    rw [recursiveExtractGroups]
    show ((ownGroups path fields).bind fun own => (extractFields path fields).bind fun below =>
      some (own ++ below)) = (ownGroups path fields).bind fun own =>
        (extractFields path fields).map fun below => own ++ below
    simp only [Option.map_eq_bind]
    rfl
  | arr items =>
    rw [recursiveExtractGroups, extractItems_eq]
    exact Option.map_id'.symm
  | null | bool b | num q | str s => rfl

theorem extractFields_cons {path : List Text} {c : Text × Json} {cs : List (Text × Json)}
    {groups : List Group} (h : extractFields path (c :: cs) = some groups) :
    ∃ here rest, recursiveExtractGroups (path ++ [c.1]) c.2 = some here ∧
      extractFields path cs = some rest ∧ groups = here ++ rest := by
  rw [extractFields, Option.bind_eq_bind, Option.bind_eq_some_iff] at h
  obtain ⟨here, hhere, h⟩ := h
  obtain ⟨rest, hrest, h⟩ := Option.bind_eq_some_iff.mp h
  exact ⟨here, rest, hhere, hrest, (Option.some.inj h).symm⟩

/-- The groups below a node are those of its children, in their order. -/
theorem extractFields_flatMap {path : List Text} {cs : List (Text × Json)} {groups : List Group}
    (h : extractFields path cs = some groups) :
    groups = (cs.flatMap fun c => (recursiveExtractGroups (path ++ [c.1]) c.2).getD []) ∧
      ∀ c ∈ cs, (recursiveExtractGroups (path ++ [c.1]) c.2).isSome := by
  induction cs generalizing groups with
  | nil => exact ⟨(Option.some.inj h).symm, fun _ hc => absurd hc List.not_mem_nil⟩
  | cons c cs ih =>
    obtain ⟨here, rest, hhere, hrest, rfl⟩ := extractFields_cons h
    obtain ⟨hflat, hsome⟩ := ih hrest
    constructor
    · rw [List.flatMap_cons, hhere, ← hflat]
      rfl
    · rw [List.forall_mem_cons, hhere]
      exact ⟨rfl, hsome⟩

/-- A list of groups has the rule group of every node from `j` on once. -/
structure Lists (path : List Text) (j : Json) (groups : List Group) : Prop where
  mem : ∀ group, group ∈ groups ↔ ∃ sub, GroupAt path sub j group
  nodup : (groups.map Group.path).Nodup

/-- The loop over the children. -/
theorem lists_children {path : List Text} {cs : List (Text × Json)} {groups : List Group}
    (hnodup : (cs.map Prod.fst).Nodup)
    (hcs : ∀ c ∈ cs, ∀ path groups, recursiveExtractGroups path c.2 = some groups →
      Lists path c.2 groups)
    (h : extractFields path cs = some groups) :
    (∀ group, group ∈ groups ↔ ∃ c ∈ cs, ∃ sub, GroupAt (path ++ [c.1]) sub c.2 group) ∧
      (groups.map Group.path).Nodup := by
  induction cs generalizing groups with
  | nil =>
    rw [← Option.some.inj h]
    exact ⟨fun group => iff_of_false List.not_mem_nil fun ⟨c, hc, _⟩ => absurd hc List.not_mem_nil,
      List.nodup_nil⟩
  | cons c cs ih =>
    obtain ⟨here, rest, hhere, hrest, rfl⟩ := extractFields_cons h
    obtain ⟨hhead, htail⟩ := List.nodup_cons.mp hnodup
    have hlists := hcs c List.mem_cons_self _ _ hhere
    obtain ⟨hmem, hpaths⟩ := ih htail (fun c' hc' => hcs c' (List.mem_cons_of_mem c hc')) hrest
    constructor
    · intro group
      rw [List.mem_append, hlists.mem, hmem, List.exists_mem_cons_iff]
    · rw [List.map_append]
      refine List.nodup_append.mpr ⟨hlists.nodup, hpaths, ?_⟩
      -- the paths on both sides differ in the step behind `path`
      intro p hp q hq heq
      obtain ⟨g, hg, rfl⟩ := List.mem_map.mp hp
      obtain ⟨g', hg', rfl⟩ := List.mem_map.mp hq
      obtain ⟨sub, hsub⟩ := (hlists.mem g).mp hg
      obtain ⟨c', hc', sub', hsub'⟩ := (hmem g').mp hg'
      rw [hsub.path_eq, hsub'.path_eq, List.append_assoc, List.append_assoc,
        List.append_cancel_left_eq] at heq
      exact hhead ((List.cons.inj heq).1 ▸ List.mem_map_of_mem hc')

/-- The traversal lists every rule group once, with the path that leads to it. -/
theorem lists_of_extract {j : Json} (hj : DistinctKeys j) {path : List Text}
    {groups : List Group} (h : recursiveExtractGroups path j = some groups) :
    Lists path j groups := by
  induction j using Json.children_induction generalizing path groups with
  | h j ih =>
    rw [recursiveExtractGroups_eq] at h
    obtain ⟨own, hown, h⟩ := Option.bind_eq_some_iff.mp h
    obtain ⟨below, hbelow, rfl⟩ := Option.map_eq_some_iff.mp h
    obtain ⟨hmem, hpaths⟩ := lists_children hj.nodup
      (fun c hc path groups hc' => ih c hc (hj.child hc) hc') hbelow
    constructor
    · intro group
      rw [List.mem_append, mem_nodeGroups_iff hown, hmem]
      constructor
      · rintro (h | ⟨c, hc, sub, hsub⟩)
        · exact ⟨[], h⟩
        · exact ⟨c.1 :: sub, (groupAt_cons_iff hj).mpr ⟨c, hc, rfl, hsub⟩⟩
      · rintro ⟨sub, hsub⟩
        match sub, hsub with
        | [], hsub => exact .inl hsub
        | step :: sub, hsub =>
          obtain ⟨c, hc, rfl, hsub⟩ := (groupAt_cons_iff hj).mp hsub
          exact .inr ⟨c, hc, sub, hsub⟩
    · rw [List.map_append]
      refine List.nodup_append.mpr ⟨?_, hpaths, ?_⟩
      · match own, length_nodeGroups hown with
        | [], _ => exact List.nodup_nil
        | [g], _ => exact List.nodup_singleton _
      · -- the path of the node itself is shorter than those below it
        intro p hp q hq heq
        obtain ⟨g, hg, rfl⟩ := List.mem_map.mp hp
        obtain ⟨g', hg', rfl⟩ := List.mem_map.mp hq
        obtain ⟨c, hc, sub, hsub⟩ := (hmem g').mp hg'
        rw [((mem_nodeGroups_iff hown).mp hg).path_eq, hsub.path_eq, List.append_assoc,
          List.append_cancel_left_eq] at heq
        exact nomatch heq

/-! ## Readable documents -/

/-- The rule groups of a document have the form that Suricata writes: each can be read, and its
signatures can be keys. -/
def Readable (j : Json) : Prop :=
  ∀ path node rulegroup, nodeAt path j = some (.obj node) →
    field "rulegroup".toList node = some rulegroup →
    ∃ group, readGroup path node rulegroup = some group ∧
      ∀ sig ∈ group.sigs, (hashable sig).isSome

theorem Readable.child {j : Json} (hj : DistinctKeys j) (h : Readable j) {c : Text × Json}
    (hc : c ∈ j.children) : Readable c.2 := by
  intro path node rulegroup hnode hfield
  obtain ⟨group, hread, hsigs⟩ := h (c.1 :: path) node rulegroup
    ((Json.nodeAt_cons_iff hj).mpr ⟨c, hc, rfl, hnode⟩) hfield
  rw [readGroup_eq] at hread
  obtain ⟨group', hread', rfl⟩ := Option.map_eq_some_iff.mp hread
  exact ⟨{ group' with path := path }, by rw [readGroup_eq, hread']; rfl, hsigs⟩

/-- Nothing raises in a document that is readable. -/
theorem exists_extract {j : Json} (hj : DistinctKeys j) (h : Readable j) (path : List Text) :
    ∃ groups, recursiveExtractGroups path j = some groups := by
  induction j using Json.children_induction generalizing path with
  | h j ih =>
    have hown : ∃ own, nodeGroups path j = some own := by
      unfold nodeGroups ownGroups
      split
      · rename_i fields
        split
        · rename_i rulegroup hfield
          obtain ⟨group, hread, -⟩ := h [] fields rulegroup rfl hfield
          rw [readGroup_eq, hread]
          exact ⟨_, rfl⟩
        · exact ⟨_, rfl⟩
      · exact ⟨_, rfl⟩
    have hbelow : ∀ cs : List (Text × Json), (∀ c ∈ cs, c ∈ j.children) →
        ∃ below, extractFields path cs = some below := by
      intro cs hcs
      induction cs with
      | nil => exact ⟨[], rfl⟩
      | cons c cs ihcs =>
        have hc := hcs c List.mem_cons_self
        obtain ⟨here, hhere⟩ := ih c hc (hj.child hc) (h.child hj hc) (path ++ [c.1])
        obtain ⟨rest, hrest⟩ := ihcs fun c' hc' => hcs c' (List.mem_cons_of_mem c hc')
        exact ⟨here ++ rest, by rw [extractFields, hhere, hrest]; rfl⟩
    obtain ⟨own, hown⟩ := hown
    obtain ⟨below, hbelow⟩ := hbelow j.children fun _ hc => hc
    exact ⟨own ++ below, by rw [recursiveExtractGroups_eq, hown, hbelow]; rfl⟩

/-- What was extracted and can be counted was readable. -/
theorem readable_of_extract {j : Json} (hj : DistinctKeys j) {path : List Text}
    {groups : List Group} (h : recursiveExtractGroups path j = some groups)
    (hsigs : ∀ group ∈ groups, ∀ sig ∈ group.sigs, (hashable sig).isSome) : Readable j := by
  induction j using Json.children_induction generalizing path groups with
  | h j ih =>
    rw [recursiveExtractGroups_eq] at h
    obtain ⟨own, hown, h⟩ := Option.bind_eq_some_iff.mp h
    obtain ⟨below, hbelow, rfl⟩ := Option.map_eq_some_iff.mp h
    obtain ⟨hflat, hsome⟩ := extractFields_flatMap hbelow
    intro sub node rulegroup hnode hfield
    cases sub with
    | nil =>
      obtain rfl := Option.some.inj hnode
      rw [nodeGroups, ownGroups, hfield] at hown
      obtain ⟨group, hread, rfl⟩ := Option.map_eq_some_iff.mp hown
      have hcount := hsigs group (List.mem_append_left _ (List.mem_singleton_self group))
      rw [readGroup_eq] at hread ⊢
      obtain ⟨group', hread', rfl⟩ := Option.map_eq_some_iff.mp hread
      exact ⟨{ group' with path := [] }, by rw [hread']; rfl, hcount⟩
    | cons step sub =>
      obtain ⟨c, hc, rfl, hbranch⟩ := (Json.nodeAt_cons_iff hj).mp hnode
      obtain ⟨here, hhere⟩ := Option.isSome_iff_exists.mp (hsome c hc)
      have hreadable : Readable c.2 := by
        apply ih c hc (hj.child hc) hhere
        intro group hgroup
        apply hsigs group
        rw [hflat]
        exact List.mem_append_right _ (List.mem_flatMap.mpr ⟨c, hc, by rw [hhere]; exact hgroup⟩)
      obtain ⟨group, hread, hcount⟩ := hreadable sub node rulegroup hbranch hfield
      rw [readGroup_eq] at hread ⊢
      obtain ⟨group', hread', rfl⟩ := Option.map_eq_some_iff.mp hread
      exact ⟨{ group' with path := c.1 :: sub }, by rw [hread']; rfl, hcount⟩

/-! ## The dotted paths -/

/-- The groups below a path that leads to a branch. -/
theorem extractGroups_of_descend {data branch : Json} {path : Text} {keys : List Text}
    (hne : path ≠ []) (hsplit : path.splitOn '.' = keys) (h : descend keys data = some branch) :
    extractGroups data (some path) = recursiveExtractGroups keys branch := by
  unfold extractGroups
  split
  · rename_i hnone
    exact nomatch hnone
  · rename_i hnil
    exact absurd (Option.some.inj hnil) hne
  · rename_i filterPath _ hpath
    rw [← Option.some.inj hpath, hsplit, h]

theorem extractGroups_key {fields : List (Text × Json)} {f : Text × Json}
    (hf : field f.1 fields = some f.2) (hne : f.1 ≠ []) (hdot : '.' ∉ f.1) :
    extractGroups (.obj fields) (some f.1) = recursiveExtractGroups [f.1] f.2 := by
  have hdescend : descend [f.1] (.obj fields) = some f.2 := by
    rw [descend, hf]
    rfl
  exact extractGroups_of_descend hne (List.splitOn_eq_singleton hdot) hdescend

/-- The filter with one dot looks up two keys. -/
theorem extractGroups_sub {fields subs : List (Text × Json)} {key : Text} {s : Text × Json}
    (hf : field key fields = some (.obj subs)) (hs : field s.1 subs = some s.2) (hkey : '.' ∉ key)
    (hsub : '.' ∉ s.1) :
    extractGroups (.obj fields) (some (key ++ '.' :: s.1)) =
      recursiveExtractGroups [key, s.1] s.2 := by
  have hdescend : descend [key, s.1] (.obj fields) = some s.2 := by
    rw [descend, hf]
    show descend [s.1] (.obj subs) = some s.2
    rw [descend, hs]
    rfl
  have hsplit : (key ++ '.' :: s.1).splitOn '.' = [key, s.1] := by
    rw [List.splitOn_append_cons_self_of_not_mem hkey, List.splitOn_eq_singleton hsub]
  exact extractGroups_of_descend (List.append_ne_nil_of_right_ne_nil _ (List.cons_ne_nil _ _))
    hsplit hdescend

/-! ## The levels -/

/-- The levels of an entry of the document: its key, and its sub-keys. -/
def entryNames (entry : Text × Json) : List Text :=
  match entry.2 with
  | .obj subs => entry.1 :: subs.map fun s => entry.1 ++ '.' :: s.1
  | _ => [entry.1]

/-- A key adds its own level, and those of its children. -/
theorem addLevels_eq (data : Json) (levels : Levels) (entry : Text × Json) :
    addLevels data levels entry = (entryNames entry).foldlM (addLevel data) levels := by
  match entry with
  | (key, .obj subs) =>
    show ((addLevel data levels key).bind fun levels => (subs.map Prod.fst).foldlM
        (fun levels sub => addLevel data levels (key ++ '.' :: sub)) levels) =
      (key :: subs.map fun s => key ++ '.' :: s.1).foldlM (addLevel data) levels
    rw [List.foldlM_cons]
    simp only [List.foldlM_map]
    rfl
  | (key, .null) | (key, .bool b) | (key, .num q) | (key, .str s) | (key, .arr items) =>
    show ((addLevel data levels key).bind some) = [key].foldlM (addLevel data) levels
    rw [List.foldlM_cons]
    rfl

theorem foldlM_addLevels (data : Json) (entries : List (Text × Json)) (levels : Levels) :
    entries.foldlM (addLevels data) levels =
      (entries.flatMap entryNames).foldlM (addLevel data) levels := by
  induction entries generalizing levels with
  | nil => rfl
  | cons entry entries ih =>
    rw [List.foldlM_cons, List.flatMap_cons, List.foldlM_append, addLevels_eq]
    simp only [ih]

/-- The loop over the names: every name gets what is extracted for it. -/
theorem foldlM_addLevel {data : Json} {names : List Text} {levels levels' : Levels}
    (h : names.foldlM (addLevel data) levels = some levels') :
    (∀ name ∈ names, levels'.get? name = extractGroups data (some name) ∧
      (levels'.get? name).isSome) ∧
    ∀ name ∉ names, levels'.get? name = levels.get? name := by
  induction names generalizing levels with
  | nil =>
    obtain rfl := Option.some.inj h
    exact ⟨fun _ hname => absurd hname List.not_mem_nil, fun _ _ => rfl⟩
  | cons name names ih =>
    rw [List.foldlM_cons] at h
    obtain ⟨next, hnext, h⟩ := Option.bind_eq_some_iff.mp h
    obtain ⟨groups, hgroups, hnext⟩ := Option.bind_eq_some_iff.mp hnext
    obtain rfl := Option.some.inj hnext
    obtain ⟨hin, hout⟩ := ih h
    constructor
    · intro name' hname'
      by_cases hmem : name' ∈ names
      · exact hin name' hmem
      · obtain rfl := (List.mem_cons.mp hname').resolve_right hmem
        rw [hout _ hmem, Dict.get?_set, if_pos rfl, hgroups]
        exact ⟨rfl, rfl⟩
    · intro name' hname'
      have hne : name ≠ name' := fun heq => hname' (heq ▸ List.mem_cons_self)
      rw [hout name' fun hmem => hname' (List.mem_cons_of_mem name hmem), Dict.get?_set, if_neg hne]

theorem exists_foldlM_addLevel {data : Json} {names : List Text} (levels : Levels)
    (h : ∀ name ∈ names, ∃ groups, extractGroups data (some name) = some groups) :
    ∃ levels', names.foldlM (addLevel data) levels = some levels' := by
  induction names generalizing levels with
  | nil => exact ⟨levels, rfl⟩
  | cons name names ih =>
    obtain ⟨groups, hgroups⟩ := h name List.mem_cons_self
    rw [List.foldlM_cons, addLevel, hgroups]
    exact ih _ fun name' hname' => h name' (List.mem_cons_of_mem name hname')

/-- A document like those that Suricata dumps: the keys are distinct, those at the top are not
empty and not `global`, and the keys of levels have no dot. -/
structure Document where
  fields : List (Text × Json)
  distinct : DistinctKeys (.obj fields)
  root : field "rulegroup".toList fields = none
  keys : ∀ f ∈ fields, f.1 ≠ [] ∧ '.' ∉ f.1 ∧ f.1 ≠ "global".toList
  subKeys : ∀ f ∈ fields, ∀ subs, f.2 = .obj subs → ∀ s ∈ subs, '.' ∉ s.1

def Document.data (doc : Document) : Json := .obj doc.fields

/-- The names of the levels but the global one. -/
def Document.names (doc : Document) : List Text := doc.fields.flatMap entryNames

/-- The names of the levels are the keys, and the pairs of keys with a dot. -/
theorem Document.mem_names {doc : Document} {name : Text} :
    name ∈ doc.names ↔ ∃ f ∈ doc.fields, name = f.1 ∨
      ∃ subs, f.2 = .obj subs ∧ ∃ s ∈ subs, name = f.1 ++ '.' :: s.1 := by
  rw [names, List.mem_flatMap]
  apply exists_congr
  intro f
  apply and_congr_right
  intro _
  rw [entryNames]
  split
  · rename_i subs hsubs
    rw [List.mem_cons, List.mem_map, hsubs]
    apply or_congr_right
    constructor
    · rintro ⟨s, hs, rfl⟩
      exact ⟨subs, rfl, s, hs, rfl⟩
    · rintro ⟨subs', heq, s, hs, rfl⟩
      obtain rfl := Json.obj.inj heq
      exact ⟨s, hs, rfl⟩
  · rename_i hother
    rw [List.mem_singleton]
    constructor
    · exact Or.inl
    · rintro (h | ⟨subs, hsubs, -⟩)
      · exact h
      · exact absurd hsubs (hother subs)

/-- No key takes the name of the global level. -/
theorem Document.global_not_mem (doc : Document) : "global".toList ∉ doc.names := by
  intro hmem
  obtain ⟨f, hf, hname | ⟨subs, hsubs, s, hs, hname⟩⟩ := mem_names.mp hmem
  · exact (doc.keys f hf).2.2 hname.symm
  · have hdot : '.' ∈ "global".toList := by
      rw [hname]
      exact List.mem_append_right _ List.mem_cons_self
    exact absurd hdot (by decide)

theorem Document.field_eq (doc : Document) {f : Text × Json} (hf : f ∈ doc.fields) :
    field f.1 doc.fields = some f.2 := (Json.mem_children_iff doc.distinct).mp hf

/-- What is extracted for a level, by the traversal of its branch. -/
theorem Document.extract_key (doc : Document) {f : Text × Json} (hf : f ∈ doc.fields) :
    extractGroups doc.data (some f.1) = recursiveExtractGroups [f.1] f.2 :=
  extractGroups_key (doc.field_eq hf) (doc.keys f hf).1 (doc.keys f hf).2.1

theorem Document.extract_sub (doc : Document) {f s : Text × Json} {subs : List (Text × Json)}
    (hf : f ∈ doc.fields) (hsubs : f.2 = .obj subs) (hs : s ∈ subs) :
    extractGroups doc.data (some (f.1 ++ '.' :: s.1)) = recursiveExtractGroups [f.1, s.1] s.2 := by
  have hdistinct : DistinctKeys (.obj subs) := hsubs ▸ doc.distinct.child hf
  exact extractGroups_sub (hsubs ▸ doc.field_eq hf) ((Json.mem_children_iff hdistinct).mp hs)
    (doc.keys f hf).2.1 (doc.subKeys f hf subs hsubs s hs)

theorem Document.levels_eq (doc : Document) :
    documentLevels doc.data none = (recursiveExtractGroups [] doc.data).bind fun groups =>
      doc.names.foldlM (addLevel doc.data) (Dict.empty.set "global".toList groups) := by
  show ((recursiveExtractGroups [] doc.data).bind fun groups =>
    doc.fields.foldlM (addLevels doc.data) (Dict.empty.set "global".toList groups)) = _
  simp only [foldlM_addLevels]
  rfl

/-- What the levels of a document are. -/
theorem Document.get?_levels {doc : Document} {levels : Levels}
    (h : documentLevels doc.data none = some levels) :
    (∃ groups, recursiveExtractGroups [] doc.data = some groups ∧
      levels.get? "global".toList = some groups) ∧
    ∀ name ∈ doc.names, levels.get? name = extractGroups doc.data (some name) ∧
      (levels.get? name).isSome := by
  rw [doc.levels_eq] at h
  obtain ⟨groups, hgroups, h⟩ := Option.bind_eq_some_iff.mp h
  obtain ⟨hin, hout⟩ := foldlM_addLevel h
  refine ⟨⟨groups, hgroups, ?_⟩, hin⟩
  rw [hout _ doc.global_not_mem, Dict.get?_set, if_pos rfl]

/-! ## The partition -/

/-- The levels of a document partition its rule groups. -/
structure Partition (doc : Document) (levels : Levels) : Prop where
  keys : ∀ f ∈ doc.fields, (levels.get? f.1).isSome
  subKeys : ∀ f ∈ doc.fields, ∀ subs, f.2 = .obj subs →
    ∀ s ∈ subs, (levels.get? (f.1 ++ '.' :: s.1)).isSome
  global : levels.get? "global".toList =
    some (doc.fields.flatMap fun f => (levels.get? f.1).getD [])
  branch : ∀ f ∈ doc.fields, ∀ subs, f.2 = .obj subs → field "rulegroup".toList subs = none →
    levels.get? f.1 = some (subs.flatMap fun s => (levels.get? (f.1 ++ '.' :: s.1)).getD [])
  listed : ∀ groups, levels.get? "global".toList = some groups →
    (∀ group, group ∈ groups ↔ ∃ path, GroupAt [] path doc.data group) ∧
      (groups.map Group.path).Nodup

/-- Below a node without a group of its own. -/
theorem recursiveExtractGroups_obj {path : List Text} {fields : List (Text × Json)}
    (h : field "rulegroup".toList fields = none) :
    recursiveExtractGroups path (.obj fields) = extractFields path fields := by
  have hown : nodeGroups path (.obj fields) = some [] := by
    rw [nodeGroups, ownGroups, h]
  rw [recursiveExtractGroups_eq, hown]
  exact Option.map_id'

/-- What the levels have in common with the document. -/
theorem partition_of_levels {doc : Document} {levels : Levels}
    (h : documentLevels doc.data none = some levels) : Partition doc levels := by
  obtain ⟨⟨groups, hgroups, hglobal⟩, hnames⟩ := doc.get?_levels h
  -- a key is a name of its own
  have hkey : ∀ f ∈ doc.fields, levels.get? f.1 = recursiveExtractGroups [f.1] f.2 ∧
      (levels.get? f.1).isSome := by
    intro f hf
    rw [← doc.extract_key hf]
    exact hnames f.1 (Document.mem_names.mpr ⟨f, hf, .inl rfl⟩)
  -- and so is each key below it
  have hsub : ∀ f ∈ doc.fields, ∀ subs, f.2 = .obj subs → ∀ s ∈ subs,
      levels.get? (f.1 ++ '.' :: s.1) = recursiveExtractGroups [f.1, s.1] s.2 ∧
        (levels.get? (f.1 ++ '.' :: s.1)).isSome := by
    intro f hf subs hsubs s hs
    rw [← doc.extract_sub hf hsubs hs]
    exact hnames _ (Document.mem_names.mpr ⟨f, hf, .inr ⟨subs, hsubs, s, hs, rfl⟩⟩)
  constructor
  · exact fun f hf => (hkey f hf).2
  · exact fun f hf subs hsubs s hs => (hsub f hf subs hsubs s hs).2
  · have hfields : extractFields [] doc.fields = some groups := by
      rw [← recursiveExtractGroups_obj doc.root]
      exact hgroups
    rw [hglobal, (extractFields_flatMap hfields).1, List.flatMap_def, List.flatMap_def]
    congr 2
    apply List.map_congr_left
    intro f hf
    rw [(hkey f hf).1]
    rfl
  · intro f hf subs hsubs hroot
    obtain ⟨here, hhere⟩ := Option.isSome_iff_exists.mp (hkey f hf).2
    have hfields : extractFields [f.1] subs = some here := by
      rw [← recursiveExtractGroups_obj hroot, ← hsubs, ← (hkey f hf).1]
      exact hhere
    rw [hhere, (extractFields_flatMap hfields).1, List.flatMap_def, List.flatMap_def]
    congr 2
    apply List.map_congr_left
    intro s hs
    rw [(hsub f hf subs hsubs s hs).1]
    rfl
  · intro groups' hgroups'
    rw [hglobal] at hgroups'
    rw [← Option.some.inj hgroups']
    have hlists := lists_of_extract doc.distinct hgroups
    exact ⟨hlists.mem, hlists.nodup⟩

/-! ## The metrics of the levels -/

theorem exists_mapM {α β : Type} {f : α → Option β} {l : List α} (h : ∀ a ∈ l, (f a).isSome) :
    ∃ l', l.mapM f = some l' := by
  induction l with
  | nil => exact ⟨[], rfl⟩
  | cons a l ih =>
    obtain ⟨b, hb⟩ := Option.isSome_iff_exists.mp (h a List.mem_cons_self)
    obtain ⟨l', hl'⟩ := ih fun a' ha' => h a' (List.mem_cons_of_mem a ha')
    exact ⟨b :: l', by rw [List.mapM_cons, hb, hl']; rfl⟩

theorem exists_computeMetrics (log2 : ℚ → ℚ) {groups : List Group}
    (h : ∀ group ∈ groups, ∀ sig ∈ group.sigs, (hashable sig).isSome) :
    ∃ metrics, computeMetrics log2 groups = some metrics := by
  obtain ⟨sigs, hsigs⟩ := exists_mapM (f := fun group : Group => group.sigs.mapM hashable)
    fun group hgroup => by
      obtain ⟨keys, hkeys⟩ := exists_mapM (h group hgroup)
      rw [hkeys]
      rfl
  exact ⟨_, by rw [computeMetrics, hsigs]; rfl⟩

/-- The metrics are computed for each level, if the signatures can be counted. -/
theorem exists_levelResults (log2 : ℚ → ℚ) {levels : List (Text × List Group)}
    (h : ∀ level ∈ levels, ∀ group ∈ level.2, ∀ sig ∈ group.sigs, (hashable sig).isSome)
    (results : Dict Text Metrics) :
    ∃ results', levelResults log2 results levels = some results' := by
  induction levels generalizing results with
  | nil => exact ⟨results, rfl⟩
  | cons level levels ih =>
    have htail := ih fun l hl => h l (List.mem_cons_of_mem level hl)
    rw [levelResults]
    split
    · exact htail results
    · obtain ⟨metrics, hmetrics⟩ := exists_computeMetrics log2 (h level List.mem_cons_self)
      rw [hmetrics]
      exact htail _

/-- The groups of a readable branch can be counted. -/
theorem hashable_of_readable {j : Json} (hj : DistinctKeys j) (h : Readable j) {path : List Text}
    {groups : List Group} (hgroups : recursiveExtractGroups path j = some groups) :
    ∀ group ∈ groups, ∀ sig ∈ group.sigs, (hashable sig).isSome := by
  intro group hgroup
  obtain ⟨sub, node, rulegroup, hnode, hkey, hread⟩ :=
    ((lists_of_extract hj hgroups).mem group).mp hgroup
  obtain ⟨group', hread', hsigs⟩ := h sub node rulegroup hnode hkey
  rw [readGroup_eq] at hread hread'
  obtain ⟨g, hg, rfl⟩ := Option.map_eq_some_iff.mp hread
  obtain ⟨g', hg', rfl⟩ := Option.map_eq_some_iff.mp hread'
  rw [← Option.some.inj (hg.symm.trans hg')] at hsigs
  exact hsigs

/-- The branch of a level can be extracted, and its groups can be counted. -/
theorem Document.extract_name {doc : Document} (h : Readable doc.data) {name : Text}
    (hname : name ∈ doc.names) :
    ∃ groups, extractGroups doc.data (some name) = some groups ∧
      ∀ group ∈ groups, ∀ sig ∈ group.sigs, (hashable sig).isSome := by
  obtain ⟨f, hf, rfl | ⟨subs, hsubs, s, hs, rfl⟩⟩ := mem_names.mp hname
  · have hdistinct := doc.distinct.child hf
    have hread : Readable f.2 := h.child doc.distinct hf
    obtain ⟨groups, hgroups⟩ := exists_extract hdistinct hread [f.1]
    rw [doc.extract_key hf]
    exact ⟨groups, hgroups, hashable_of_readable hdistinct hread hgroups⟩
  · have hf2 : DistinctKeys (.obj subs) := hsubs ▸ doc.distinct.child hf
    have hread2 : Readable (.obj subs) := hsubs ▸ h.child doc.distinct hf
    have hdistinct : DistinctKeys s.2 := hf2.child hs
    have hread : Readable s.2 := hread2.child hf2 hs
    obtain ⟨groups, hgroups⟩ := exists_extract hdistinct hread [f.1, s.1]
    rw [doc.extract_sub hf hsubs hs]
    exact ⟨groups, hgroups, hashable_of_readable hdistinct hread hgroups⟩

/-- The levels of a document partition its rule groups whenever the analysis returns, and it
returns when the rule groups can be read. -/
theorem analyzeLevels_partition (log2 : ℚ → ℚ) (doc : Document) :
    (Readable doc.data → ∃ out, analyzeLevels log2 doc.data none = some out) ∧
    ∀ out, analyzeLevels log2 doc.data none = some out → Partition doc out.1 := by
  constructor
  · intro h
    obtain ⟨groups, hgroups⟩ := exists_extract doc.distinct h []
    obtain ⟨levels, hfold⟩ := exists_foldlM_addLevel (Dict.empty.set "global".toList groups)
      fun name hname => (Document.extract_name h hname).imp fun _ hg => hg.1
    have hlevels : documentLevels doc.data none = some levels := by
      rw [doc.levels_eq]
      exact Option.bind_eq_some_iff.mpr ⟨groups, hgroups, hfold⟩
    obtain ⟨hin, hout⟩ := foldlM_addLevel hfold
    have hsigs : ∀ level ∈ levels.entries, ∀ group ∈ level.2, ∀ sig ∈ group.sigs,
        (hashable sig).isSome := by
      intro level hlevel
      have hget : levels.get? level.1 = some level.2 := Dict.find_of_mem levels.nodup hlevel
      -- a level is a name of the document or the global one
      by_cases hname : level.1 ∈ doc.names
      · obtain ⟨groups', hgroups', hhash⟩ := Document.extract_name h hname
        rw [(hin level.1 hname).1, hgroups'] at hget
        exact Option.some.inj hget ▸ hhash
      · rw [hout level.1 hname, Dict.get?_set] at hget
        by_cases hglobal : "global".toList = level.1
        · rw [if_pos hglobal] at hget
          exact Option.some.inj hget ▸ hashable_of_readable doc.distinct h hgroups
        · rw [if_neg hglobal] at hget
          exact nomatch hget
    obtain ⟨results, hresults⟩ := exists_levelResults log2 hsigs Dict.empty
    refine ⟨(levels, results), ?_⟩
    rw [analyzeLevels, hlevels]
    show ((levelResults log2 Dict.empty levels.entries).bind fun results =>
      some (levels, results)) = _
    rw [hresults]
    rfl
  · intro out hout
    obtain ⟨levels, hlevels, hout⟩ := Option.bind_eq_some_iff.mp hout
    obtain ⟨results, -, hout⟩ := Option.bind_eq_some_iff.mp hout
    rw [← Option.some.inj hout]
    exact partition_of_levels hlevels

/-- A node with a rule group of one rule. -/
def portNode (sigId : ℚ) : Json :=
  .obj [("rulegroup".toList, .obj [("rules".toList, .arr [.obj [("sig_id".toList, .num sigId)]])])]

theorem distinctKeys_portNode (sigId : ℚ) : DistinctKeys (portNode sigId) := by
  refine .obj (List.nodup_singleton _) (List.forall_mem_singleton.mpr ?_)
  refine .obj (List.nodup_singleton _) (List.forall_mem_singleton.mpr ?_)
  refine .arr (List.forall_mem_singleton.mpr ?_)
  exact .obj (List.nodup_singleton _) (List.forall_mem_singleton.mpr (.num _))

/-- The fields of a document with rule groups below objects and lists, and one at a key. -/
def nestedFields : List (Text × Json) :=
  [("tcp".toList, .obj
      [("toserver".toList, .obj [("80".toList, portNode 1)]),
        ("toclient".toList, .arr [portNode 2, .obj [("other".toList, .arr [portNode 3])]])]),
    ("ip".toList, portNode 4)]

theorem distinctKeys_nestedFields : DistinctKeys (.obj nestedFields) := by
  have hserver : DistinctKeys (.obj [("80".toList, portNode 1)]) :=
    .obj (List.nodup_singleton _) (List.forall_mem_singleton.mpr (distinctKeys_portNode 1))
  have hother : DistinctKeys (.obj [("other".toList, .arr [portNode 3])]) :=
    .obj (List.nodup_singleton _) (List.forall_mem_singleton.mpr
      (.arr (List.forall_mem_singleton.mpr (distinctKeys_portNode 3))))
  have hclient : DistinctKeys (.arr [portNode 2, .obj [("other".toList, .arr [portNode 3])]]) :=
    .arr (List.forall_mem_cons.mpr
      ⟨distinctKeys_portNode 2, List.forall_mem_singleton.mpr hother⟩)
  exact .obj (by decide) (List.forall_mem_cons.mpr
    ⟨.obj (by decide) (List.forall_mem_cons.mpr ⟨hserver, List.forall_mem_singleton.mpr hclient⟩),
      List.forall_mem_singleton.mpr (distinctKeys_portNode 4)⟩)

/-- A document with rule groups below objects and lists. -/
def nestedDocument : Document where
  fields := nestedFields
  distinct := distinctKeys_nestedFields
  root := rfl
  keys := by
    rw [nestedFields, List.forall_mem_cons, List.forall_mem_singleton]
    decide
  subKeys := by
    rw [nestedFields, List.forall_mem_cons, List.forall_mem_singleton]
    constructor
    · intro subs hsubs
      rw [← Json.obj.inj hsubs, List.forall_mem_cons, List.forall_mem_singleton]
      decide
    · intro subs hsubs
      rw [← Json.obj.inj hsubs, List.forall_mem_singleton]
      decide

theorem readable_nestedDocument : Readable nestedDocument.data := by
  obtain ⟨groups, hgroups, hcount⟩ : ∃ groups,
      recursiveExtractGroups [] nestedDocument.data = some groups ∧
      (groups.all fun group => group.sigs.all fun sig => (hashable sig).isSome) = true :=
    ⟨_, rfl, rfl⟩
  apply readable_of_extract nestedDocument.distinct hgroups
  intro group hgroup
  exact List.all_eq_true.mp (List.all_eq_true.mp hcount group hgroup)

/-- The four rule groups of the document are those of its levels. -/
theorem analyzeLevels_partition_nested :
    ∃ out, analyzeLevels (fun _ => 0) nestedDocument.data none = some out ∧
      Partition nestedDocument out.1 := by
  obtain ⟨hreturns, hpartition⟩ := analyzeLevels_partition (fun _ => 0) nestedDocument
  obtain ⟨out, hout⟩ := hreturns readable_nestedDocument
  exact ⟨out, hout, hpartition out hout⟩

end EtAnalysis
end PamoRxpBench
