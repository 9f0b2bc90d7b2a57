import PamoRxpBench.Library.RoundRobin
import PamoRxpBench.Library.Utf8
import PamoRxpBench.Data.RuleSubsetsTheorems
import PamoRxpBench.RegexTest.Subsets
import PamoRxpBench.RegexTest.WorkerTheorems

/-!
# Packets and rule subsets

`regex-test` counts the separators of the ratio string, `rules_to_subsets` splits it: both get
the number of its fields (`argsParseSubsetRatios_cString`, `length_split`). The packets of a run
are then dealt to the groups `1, …, N` in turn, whatever the bursts are (`runGroups_eq`), so they
are spread evenly over the subsets of the rule file (`subsets_spreadEvenly`).
-/

namespace PamoRxpBench

/-! ## Splitting at a character -/

namespace Text

theorem splitFrom_cons_self (c : Char) (cur s : Text) :
    splitFrom [c] 0 cur (c :: s) = cur :: splitFrom [c] 0 [] s := by
  simp [splitFrom]

theorem splitFrom_cons_ne {c d : Char} (hd : d ≠ c) (cur s : Text) :
    splitFrom [c] 0 cur (d :: s) = splitFrom [c] 0 (cur ++ [d]) s := by
  simp [splitFrom, hd.symm]

/-- One part more than separators. -/
theorem length_splitFrom (c : Char) (cur s : Text) :
    (splitFrom [c] 0 cur s).length = 1 + s.count c := by
  induction s generalizing cur with
  | nil => rfl
  | cons d s ih =>
    by_cases hd : d = c
    · rw [hd, splitFrom_cons_self, List.length_cons, ih, List.count_cons_self]
      omega
    · rw [splitFrom_cons_ne hd, ih, List.count_cons_of_ne (Ne.symm (Ne.symm hd))]

/-- A character that is no separator is in one of the fields. -/
theorem exists_mem_splitFrom {c d : Char} (hd : d ≠ c) {cur s : Text} (h : d ∈ cur ∨ d ∈ s) :
    ∃ f ∈ splitFrom [c] 0 cur s, d ∈ f := by
  induction s generalizing cur with
  | nil => exact ⟨cur, List.mem_singleton_self _, h.resolve_right List.not_mem_nil⟩
  | cons e s ih =>
    by_cases he : e = c
    · rw [he, splitFrom_cons_self]
      rcases h with hcur | hs
      · exact ⟨cur, List.mem_cons_self, hcur⟩
      · have hmem : d ∈ s := (List.mem_cons.mp hs).resolve_left (he ▸ hd)
        obtain ⟨f, hf, hdf⟩ := ih (Or.inr hmem)
        exact ⟨f, List.mem_cons_of_mem _ hf, hdf⟩
    · rw [splitFrom_cons_ne he]
      apply ih
      rcases h with hcur | hs
      · exact Or.inl (List.mem_append_left _ hcur)
      · rcases List.mem_cons.mp hs with rfl | hmem
        · exact Or.inl (List.mem_append_right _ (List.mem_singleton_self _))
        · exact Or.inr hmem

end Text

/-! ## `rules_to_subsets` -/

namespace Data

theorem mapM_eq_some {α β : Type} {f : α → Option β} {xs : List α} {ys : List β}
    (h : xs.mapM f = some ys) : ys.length = xs.length ∧ ∀ x ∈ xs, (f x).isSome := by
  induction xs generalizing ys with
  | nil =>
    obtain rfl : [] = ys := Option.some.inj h
    exact ⟨rfl, fun _ hx => absurd hx List.not_mem_nil⟩
  | cons x xs ih =>
    rw [List.mapM_cons] at h
    obtain ⟨y, hy, h⟩ := Option.bind_eq_some_iff.mp h
    obtain ⟨zs, hzs, h⟩ := Option.bind_eq_some_iff.mp h
    obtain rfl := Option.some.inj h
    obtain ⟨hlen, hall⟩ := ih hzs
    refine ⟨by rw [List.length_cons, List.length_cons, hlen], fun z hz => ?_⟩
    rcases List.mem_cons.mp hz with rfl | hz
    · rw [hy]
      rfl
    · exact hall z hz

/-- What the documentation of `float` says: no number is the empty text or holds a `NUL`. -/
structure PyFloat.Documented {F : Type} (py : PyFloat F) : Prop where
  empty : py.float [] = none
  nul : ∀ s : Text, Char.ofNat 0 ∈ s → py.float s = none

/-- An accepted ratio string has a header for each field, starts with no separator and holds no
`NUL`. -/
theorem rulesToSubsets_accepts {F : Type} {py : PyFloat F} (hpy : py.Documented) {ratioStr : Text}
    {rules : List Text} {subsets : List (ℕ × List Text)}
    (h : rulesToSubsets py ratioStr rules = some subsets) :
    subsets.map Prod.fst = List.range' 1 (1 + ratioStr.count ':') ∧
    (∃ c s, ratioStr = c :: s ∧ c ≠ ':') ∧ Char.ofNat 0 ∉ ratioStr := by
  rw [rulesToSubsets] at h
  obtain ⟨fields, hfields, h⟩ := Option.bind_eq_some_iff.mp h
  obtain ⟨ratios, hratios, h⟩ := Option.bind_eq_some_iff.mp h
  obtain ⟨one, -, h⟩ := Option.bind_eq_some_iff.mp h
  have hsplit : fields = Text.splitFrom [':'] 0 [] ratioStr := (Option.some.inj hfields).symm
  obtain ⟨hlenRatios, hfloat⟩ := mapM_eq_some hratios
  rw [hsplit] at hlenRatios hfloat
  -- `float("")` raises, so no field is empty
  have hempty : [] ∉ Text.splitFrom [':'] 0 [] ratioStr := by
    intro hmem
    have := hfloat _ hmem
    rw [hpy.empty] at this
    cases this
  refine ⟨?_, ?_, ?_⟩
  · split at h
    · cases h
    · split at h
      · cases h
      · obtain ⟨counts, hcounts, h⟩ := Option.bind_eq_some_iff.mp h
        obtain rfl := Option.some.inj h
        rw [writeSubsets_headers, length_addToLast, (mapM_eq_some hcounts).1, hlenRatios,
          Text.length_splitFrom]
  · cases ratioStr with
    | nil => exact absurd (List.mem_singleton_self _) hempty
    | cons c s =>
      refine ⟨c, s, rfl, ?_⟩
      rintro rfl
      apply hempty
      rw [Text.splitFrom_cons_self]
      exact List.mem_cons_self
  · intro hnul
    obtain ⟨f, hf, hmem⟩ : ∃ f ∈ Text.splitFrom [':'] 0 [] ratioStr, Char.ofNat 0 ∈ f :=
      Text.exists_mem_splitFrom (by decide : Char.ofNat 0 ≠ ':') (Or.inr hnul)
    have := hfloat f hf
    rw [hpy.nul f hmem] at this
    cases this

end Data

namespace RegexTest

open Utf8 (mem_utf8EncodeChar not_mem_utf8EncodeChar)

/-! ## `args_parse_subset_ratios` -/

/-- The loop runs to the `NUL` and counts the separators on its way. -/
theorem subsetRatiosLoop_spec {bytes before rest : List UInt8} {s i : ℕ}
    (hbytes : bytes = before ++ rest ++ [0]) (hbefore : before.length = s + i) (hrest : 0 ∉ rest) :
    subsetRatiosLoop bytes s i = some (i + rest.count 58) := by
  induction rest generalizing before s i with
  | nil =>
    have hlt : s + i < bytes.length := by
      rw [hbytes]
      simp [hbefore]
    have hget : bytes[s + i] = 0 := by simp [hbytes, ← hbefore]
    rw [subsetRatiosLoop, dif_pos hlt, if_pos hget]
    rfl
  | cons c rest ih =>
    have hlt : s + i < bytes.length := by
      rw [hbytes]
      simp [hbefore]
    have hget : bytes[s + i] = c := by simp [hbytes, ← hbefore]
    have hc : c ≠ 0 := fun hzero => hrest (hzero ▸ List.mem_cons_self)
    have hrest' : 0 ∉ rest := fun hmem => hrest (List.mem_cons_of_mem _ hmem)
    have hbytes' : bytes = (before ++ [c]) ++ rest ++ [0] := by simp [hbytes]
    rw [subsetRatiosLoop, dif_pos hlt, hget, if_neg hc]
    by_cases hcolon : c = 58
    · rw [if_pos hcolon, ih hbytes' (by simp [hbefore]; omega) hrest', hcolon,
        List.count_cons_self]
      congr 1
      omega
    · rw [if_neg hcolon, ih hbytes' (by simp [hbefore]; omega) hrest', List.count_cons_of_ne hcolon]

/-- A colon is one byte, and no other character has this byte. -/
theorem count_flatMap_utf8EncodeChar (s : Text) :
    (s.flatMap String.utf8EncodeChar).count 58 = s.count ':' := by
  induction s with
  | nil => rfl
  | cons c s ih =>
    rw [List.flatMap_cons, List.count_append, ih]
    by_cases hc : c = ':'
    · rw [hc, List.count_cons_self]
      have hone : (String.utf8EncodeChar ':').count 58 = 1 := by decide
      omega
    · have hnot : 58 ∉ String.utf8EncodeChar c := not_mem_utf8EncodeChar (by decide) rfl hc
      rw [List.count_cons_of_ne hc, List.count_eq_zero_of_not_mem hnot, zero_add]

theorem not_mem_flatMap_utf8EncodeChar {s : Text} (h : Char.ofNat 0 ∉ s) :
    0 ∉ s.flatMap String.utf8EncodeChar := by
  intro hmem
  obtain ⟨c, hc, hbyte⟩ := List.mem_flatMap.mp hmem
  have hne : c ≠ Char.ofNat 0 := fun heq => h (heq ▸ hc)
  have hnot : 0 ∉ String.utf8EncodeChar c := not_mem_utf8EncodeChar (by decide) rfl hne
  exact hnot hbyte

/-- On a string that starts with no separator and holds no `NUL`, the number of its fields. -/
theorem argsParseSubsetRatios_cString {c : Char} {s : Text} (hc : c ≠ ':')
    (hnul : Char.ofNat 0 ∉ c :: s) :
    argsParseSubsetRatios (cString (c :: s)) = some (1 + (c :: s).count ':') := by
  have hzero := not_mem_flatMap_utf8EncodeChar hnul
  have hcount := count_flatMap_utf8EncodeChar (c :: s)
  have hnot : 58 ∉ String.utf8EncodeChar c := not_mem_utf8EncodeChar (by decide) rfl hc
  -- the loop starts at the second byte, and the first is no separator
  obtain ⟨b, tl, htl⟩ : ∃ b tl, String.utf8EncodeChar c = b :: tl :=
    List.exists_cons_of_ne_nil String.utf8EncodeChar_ne_nil
  have hb : b ≠ 58 := by
    intro heq
    rw [htl, heq] at hnot
    exact hnot List.mem_cons_self
  have hbytes : (c :: s).flatMap String.utf8EncodeChar =
      b :: (tl ++ s.flatMap String.utf8EncodeChar) := by
    rw [List.flatMap_cons, htl, List.cons_append]
  rw [hbytes] at hzero hcount
  have hloop : subsetRatiosLoop (cString (c :: s)) 0 1 =
      some (1 + (tl ++ s.flatMap String.utf8EncodeChar).count 58) := by
    have hstring : cString (c :: s) = [b] ++ (tl ++ s.flatMap String.utf8EncodeChar) ++ [0] := by
      rw [cString, hbytes]
      rfl
    exact subsetRatiosLoop_spec hstring rfl fun hmem => hzero (List.mem_cons_of_mem _ hmem)
  rw [argsParseSubsetRatios, hloop, ← hcount, List.count_cons_of_ne hb]

/-! ## The groups of a run -/

variable {M : Type} [DecidableEq M] {args : AppArgs}

omit [DecidableEq M] in
/-- One burst goes on where the last one stopped. -/
theorem prepareOps_groups (hpos : 0 < args.rgxSubsetCnt) (hcnt : args.rgxSubsetCnt < 2 ^ 16)
    (ops : List (RegexOp M)) (rx : List (RxPkt M)) (k : ℕ) (hrx : rx.length ≤ ops.length) :
    ((prepareOps args ops rx (k % args.rgxSubsetCnt + 1)).1.take rx.length).map RegexOp.groupId0 =
        ((List.range rx.length).map fun j => (k + j) % args.rgxSubsetCnt + 1) ∧
      (prepareOps args ops rx (k % args.rgxSubsetCnt + 1)).2 =
        (k + rx.length) % args.rgxSubsetCnt + 1 := by
  induction rx generalizing ops k with
  | nil => cases ops <;> exact ⟨rfl, rfl⟩
  | cons p ps ih =>
    cases ops with
    | nil => simp at hrx
    | cons op ops =>
      have hmod := Nat.mod_lt k hpos
      have hgroup : opGroupId0 args (k % args.rgxSubsetCnt + 1) = k % args.rgxSubsetCnt + 1 := by
        rw [opGroupId0]
        by_cases hone : args.rgxSubsetCnt > 1
        · rw [if_pos hone, Nat.mod_eq_of_lt (by omega)]
        · rw [if_neg hone]
          omega
      have hnext : nextSelector args (k % args.rgxSubsetCnt + 1) =
          (k + 1) % args.rgxSubsetCnt + 1 := by
        rw [nextSelector, RoundRobin.succ_mod hpos]
        by_cases hone : args.rgxSubsetCnt > 1
        · rw [if_pos hone]
          split <;> split <;> omega
        · rw [if_neg hone]
          split <;> omega
      obtain ⟨hgroups, hselector⟩ := ih ops (k + 1) (by simpa using hrx)
      refine ⟨?_, ?_⟩
      · simp only [prepareOps, List.length_cons, List.take_succ_cons, List.map_cons, hgroup, hnext]
        rw [hgroups, List.range_succ_eq_map, List.map_cons, List.map_map]
        congr 1
        apply List.map_congr_left
        intro j _
        show (k + 1 + j) % _ + 1 = (k + (j + 1)) % _ + 1
        rw [Nat.add_right_comm, Nat.add_assoc]
      · simp only [prepareOps, List.length_cons, hnext, hselector]
        rw [Nat.add_right_comm, Nat.add_assoc]

/-- Where a worker is in the round after `k` packets. -/
structure InRound (w : Worker args M) (k : ℕ) : Prop where
  ops_length : w.ops.length = args.portBurstSize
  selector : w.group0Selector = k % args.rgxSubsetCnt + 1

theorem afterEnqueue_prepared (w : Worker args M) (t : Turn M) :
    (w.afterEnqueue t).ops = (prepareOps args w.ops t.rx w.group0Selector).1 ∧
      (w.afterEnqueue t).group0Selector = (prepareOps args w.ops t.rx w.group0Selector).2 := by
  rw [Worker.afterEnqueue]
  by_cases hrx : t.rx.length > 0
  · rw [if_pos hrx]
    exact ⟨rfl, rfl⟩
  · have hnil : t.rx = [] := List.eq_nil_of_length_eq_zero (by omega)
    have hprepare : prepareOps args w.ops [] w.group0Selector = (w.ops, w.group0Selector) := by
      cases w.ops <;> rfl
    rw [if_neg hrx, hnil, hprepare]
    exact ⟨rfl, rfl⟩

/-- Dequeuing does not move the selector. -/
theorem rgxDequeue_round {ticksPerUs : UInt64} {w w' : Worker args M} {t : Turn M}
    (h : w.rgxDequeue ticksPerUs t = some w') :
    w'.ops.length = w.ops.length ∧ w'.group0Selector = w.group0Selector := by
  rw [Worker.rgxDequeue] at h
  split at h
  · obtain ⟨pkts, -, rfl⟩ := Option.map_eq_some_iff.mp h
    exact ⟨length_fillOps _ _, rfl⟩
  · obtain rfl := Option.some.inj h
    exact ⟨rfl, rfl⟩

omit [DecidableEq M] in
/-- The groups of one iteration. -/
theorem InRound.preparedGroups {w : Worker args M} {k : ℕ} (h : InRound w k)
    (hpos : 0 < args.rgxSubsetCnt) (hcnt : args.rgxSubsetCnt < 2 ^ 16) (engine : Engine)
    {t : Turn M} (hrx : t.rx.length ≤ args.portBurstSize) :
    preparedGroups engine w t = (List.range (preparedGroups engine w t).length).map
      fun j => (k + j) % args.rgxSubsetCnt + 1 := by
  by_cases hengine : engine = .regex
  · have hgroups := (prepareOps_groups hpos hcnt w.ops t.rx k (by rw [h.ops_length]; exact hrx)).1
    rw [RegexTest.preparedGroups, if_pos hengine, h.selector, hgroups, List.length_map,
      List.length_range]
  · rw [RegexTest.preparedGroups, if_neg hengine]
    rfl

/-- An iteration continues the round of the subsets. -/
theorem InRound.iteration {ticksPerUs : UInt64} {engine : Engine} {w w' : Worker args M}
    {t : Turn M} {k : ℕ} (h : InRound w k) (hpos : 0 < args.rgxSubsetCnt)
    (hcnt : args.rgxSubsetCnt < 2 ^ 16) (hrx : t.rx.length ≤ args.portBurstSize)
    (hstep : w.iteration ticksPerUs engine t = some w') :
    InRound w' (k + (RegexTest.preparedGroups engine w t).length) := by
  obtain ⟨v, hv, rfl⟩ := Option.map_eq_some_iff.mp hstep
  suffices hround : InRound v (k + (RegexTest.preparedGroups engine w t).length) from
    ⟨hround.ops_length, hround.selector⟩
  cases engine with
  | none =>
    obtain rfl := Option.some.inj hv
    exact ⟨h.ops_length, h.selector⟩
  | hyperscan =>
    obtain ⟨hsStats, -, rfl⟩ := Option.map_eq_some_iff.mp hv
    exact ⟨h.ops_length, h.selector⟩
  | regex =>
    have hops : t.rx.length ≤ w.ops.length := by
      rw [h.ops_length]
      exact hrx
    obtain ⟨hprepared, hselector⟩ := afterEnqueue_prepared w t
    obtain ⟨hlen, hsame⟩ := rgxDequeue_round hv
    have hgroups := prepareOps_groups hpos hcnt w.ops t.rx k hops
    have hcount : (RegexTest.preparedGroups .regex w t).length = t.rx.length := by
      rw [RegexTest.preparedGroups, if_pos rfl, h.selector, hgroups.1, List.length_map,
        List.length_range]
    refine ⟨?_, ?_⟩
    · rw [hlen, hprepared, length_prepareOps, h.ops_length]
    · rw [hsame, hselector, h.selector, hgroups.2, hcount]

/-- A run goes on with the round, however the packets are split into bursts. -/
theorem InRound.runGroups {ticksPerUs : UInt64} {engine : Engine} {w : Worker args M} {k : ℕ}
    (h : InRound w k) (hpos : 0 < args.rgxSubsetCnt) (hcnt : args.rgxSubsetCnt < 2 ^ 16)
    {turns : List (Turn M)} (hturns : ∀ t ∈ turns, t.rx.length ≤ args.portBurstSize) :
    runGroups ticksPerUs engine w turns =
      (List.range (runGroups ticksPerUs engine w turns).length).map
        fun j => (k + j) % args.rgxSubsetCnt + 1 := by
  induction turns generalizing w k with
  | nil => rfl
  | cons t ts ih =>
    have hrx := hturns t List.mem_cons_self
    have hgroups := h.preparedGroups hpos hcnt engine hrx
    rw [RegexTest.runGroups]
    cases hstep : w.iteration ticksPerUs engine t with
    | none =>
      simp only [List.append_nil]
      exact hgroups
    | some w' =>
      have hrest := ih (h.iteration hpos hcnt hrx hstep)
        fun t' ht' => hturns t' (List.mem_cons_of_mem _ ht')
      simp only
      rw [List.length_append, List.range_add, List.map_append, ← hgroups, List.map_map]
      congr 1
      rw [hrest, List.length_map, List.length_range]
      apply List.map_congr_left
      intro j _
      show _ = (k + (_ + j)) % _ + 1
      rw [Nat.add_assoc]

/-- The `k`-th packet of a run queries group `k % N + 1`. -/
theorem runGroups_eq (ticksPerUs : UInt64) (engine : Engine) (mem : M → PktData)
    (hpos : 0 < args.rgxSubsetCnt) (hcnt : args.rgxSubsetCnt < 2 ^ 16) {turns : List (Turn M)}
    (hturns : ∀ t ∈ turns, t.rx.length ≤ args.portBurstSize) :
    ∃ n, runGroups ticksPerUs engine (Worker.init args mem) turns =
      roundRobin args.rgxSubsetCnt n := by
  have hinit : InRound (Worker.init args mem) 0 :=
    ⟨List.length_replicate, by rw [Nat.zero_mod]; rfl⟩
  have hrun := @InRound.runGroups M _ args ticksPerUs engine _ 0 hinit hpos hcnt turns hturns
  simp only [Nat.zero_add] at hrun
  exact ⟨_, hrun⟩

/-! ## Packets and subsets -/

/-- The groups of the packets of a run are spread evenly over `N` subsets. -/
structure SpreadEvenly (N : ℕ) (groups : List ℕ) : Prop where
  inTurn : ∀ (k : ℕ) (hk : k < groups.length), groups[k] = k % N + 1
  exists_subset : ∀ g ∈ groups, g ∈ List.range' 1 N
  balanced : ∀ n, ∀ g ∈ List.range' 1 N, ∀ g' ∈ List.range' 1 N,
    (groups.take n).count g ≤ (groups.take n).count g' + 1

theorem spreadEvenly_roundRobin {N : ℕ} (hN : 0 < N) (n : ℕ) :
    SpreadEvenly N (roundRobin N n) where
  inTurn := fun _ hk => RoundRobin.getElem_roundRobin hk
  exists_subset := by
    intro g hg
    obtain ⟨hlo, hhi⟩ := RoundRobin.mem_roundRobin hN hg
    rw [List.mem_range'_1]
    omega
  balanced := by
    intro m g hg g' hg'
    rw [List.mem_range'_1] at hg hg'
    rw [RoundRobin.take_roundRobin]
    apply RoundRobin.roundRobin_balanced
    all_goals omega

/-- For every accepted ratio string `regex-test` derives the number of subsets that
`rules_to_subsets` writes, and spreads the packets of every run evenly over them. -/
theorem subsets_spreadEvenly {F : Type} {py : Data.PyFloat F} (hpy : py.Documented)
    {ratioStr : Text} {rules : List Text} {subsets : List (ℕ × List Text)}
    (hsubsets : Data.rulesToSubsets py ratioStr rules = some subsets)
    (hfields : subsets.length < 2 ^ 16) :
    argsParseSubsetRatios (cString ratioStr) = some subsets.length ∧
    subsets.map Prod.fst = List.range' 1 subsets.length ∧
    ∀ {M : Type} [DecidableEq M] (args : AppArgs) (ticksPerUs : UInt64) (engine : Engine)
      (mem : M → PktData) (turns : List (Turn M)), args.rgxSubsetCnt = subsets.length →
      (∀ t ∈ turns, t.rx.length ≤ args.portBurstSize) →
      SpreadEvenly subsets.length (runGroups ticksPerUs engine (Worker.init args mem) turns) := by
  obtain ⟨hheaders, ⟨c, s, rfl, hc⟩, hnul⟩ := Data.rulesToSubsets_accepts hpy hsubsets
  have hlen : subsets.length = 1 + (c :: s).count ':' := by
    have := congrArg List.length hheaders
    rwa [List.length_map, List.length_range'] at this
  refine ⟨?_, ?_, ?_⟩
  · rw [argsParseSubsetRatios_cString hc hnul, hlen]
  · rw [hheaders, hlen]
  · intro M _ args ticksPerUs engine mem turns hcnt hturns
    obtain ⟨n, hn⟩ := runGroups_eq ticksPerUs engine mem (by omega) (by omega) hturns
    rw [hn, hcnt]
    exact spreadEvenly_roundRobin (by omega) n

/-- The arithmetic of the text `0.5`, in tenths. -/
def tenths : Data.PyFloat ℕ where
  float s := if s = ['0', '.', '5'] then some 5 else none
  fsumIsOne ratios := some (ratios.sum == 10)
  intMul ratio n := some (ratio * n / 10)

theorem tenths_documented : tenths.Documented where
  empty := rfl
  nul := by
    intro s hs
    have hne : s ≠ ['0', '.', '5'] := by
      rintro rfl
      exact absurd hs (by decide)
    exact if_neg hne

/-- Two halves of three rules. -/
theorem subsets_spreadEvenly_twoHalves :
    argsParseSubsetRatios (cString ['0', '.', '5', ':', '0', '.', '5']) = some 2 ∧
    [1, 2] = List.range' 1 2 ∧
    ∀ {M : Type} [DecidableEq M] (args : AppArgs) (ticksPerUs : UInt64) (engine : Engine)
      (mem : M → PktData) (turns : List (Turn M)), args.rgxSubsetCnt = 2 →
      (∀ t ∈ turns, t.rx.length ≤ args.portBurstSize) →
      SpreadEvenly 2 (runGroups ticksPerUs engine (Worker.init args mem) turns) := by
  have hsubsets : Data.rulesToSubsets tenths ['0', '.', '5', ':', '0', '.', '5']
      [['a'], ['b'], ['c']] = some [(1, [['a']]), (2, [['b'], ['c']])] := rfl
  exact subsets_spreadEvenly tenths_documented hsubsets (by decide)

end RegexTest

end PamoRxpBench
