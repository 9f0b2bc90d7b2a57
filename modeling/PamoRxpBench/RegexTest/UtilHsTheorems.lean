import PamoRxpBench.RegexTest.UtilHs
import Mathlib.Data.UInt
import Mathlib.Data.Set.Function

/-!
# Every database is the one of its own rules

The path of a cache file determines the digest and the flags (`construct_fpath_injective`), and a
cache file is always a prefix of the serialized database of a call with that digest and these flags
(`CacheInv`). So a call that returns 0 has the database of its own rules, whatever failed before, if
the lines of every rule file have no NUL byte and can be counted in `expression_count`, and nothing
failed that is not looked at: a read of the rules, or the second digest (`returned_own`).
-/

namespace PamoRxpBench
namespace RegexTest

open Runs

/-! ## The path of a cache file -/

theorem not_mem_hexBytes (bytes : List UInt8) : '_' ∉ Hex.hexBytes bytes := by
  intro h
  have := Hex.isSome_hexDigit_of_mem_hexBytes h
  exact absurd this (by decide)

/-- Up to the first separator a text is determined. -/
theorem eq_of_append_cons_eq {sep : Char} {s s' t t' : Text} (hs : sep ∉ s) (hs' : sep ∉ s')
    (h : s ++ sep :: t = s' ++ sep :: t') : s = s' ∧ t = t' := by
  induction s generalizing s' with
  | nil =>
    match s' with
    | [] => exact ⟨rfl, (List.cons.inj h).2⟩
    | c :: s' => exact absurd (List.cons.inj h).1 (List.ne_of_not_mem_cons hs')
  | cons c s ih =>
    match s' with
    | [] => exact absurd (List.cons.inj h).1.symm (List.ne_of_not_mem_cons hs)
    | d :: s' =>
      obtain ⟨hhead, htail⟩ := List.cons.inj h
      obtain ⟨hst, ht⟩ := ih (List.not_mem_of_not_mem_cons hs) (List.not_mem_of_not_mem_cons hs')
        htail
      exact ⟨by rw [hhead, hst], ht⟩

/-- Cache files of different digests or flags have different paths. -/
theorem construct_fpath_injective {hash hash' : List UInt8} {flags flags' : UInt32} {path : Text}
    (h : hsDbCacheConstructFpath hash flags = some path)
    (h' : hsDbCacheConstructFpath hash' flags' = some path) : hash = hash' ∧ flags = flags' := by
  unfold hsDbCacheConstructFpath at h h'
  split at h
  · cases h
  · split at h'
    · cases h'
    · have heq := (Option.some.inj h).trans (Option.some.inj h').symm
      obtain ⟨hhash, hrest⟩ := eq_of_append_cons_eq (not_mem_hexBytes hash)
        (not_mem_hexBytes hash') (List.append_cancel_left heq)
      have hsuffix : Hex.hex flags.toNat = Hex.hex flags'.toNat := List.append_cancel_right hrest
      exact ⟨Hex.hexBytes_injective hhash, UInt32.toNat_inj.mp (Hex.hex_injective hsuffix)⟩

/-! ## The expressions of a rule file -/

/-- The lines of a rule file that are not blank. -/
def fileLines (rules : Bytes) : List Bytes := (rules.splitOn 10).filter fun line => line ≠ []

/-- Lines that all end with a line feed. -/
def Terminated (lines : List Bytes) : Prop := ∀ line ∈ lines, line.getLast? = some 10

/-- The lines that `getline` reads are those between the line feeds. -/
theorem splitOn_eq {cur bs : Bytes} (hcur : 10 ∉ cur) (h : Terminated (getlines cur bs)) :
    (cur ++ bs).splitOn 10 = (getlines cur bs).map List.dropLast ++ [[]] := by
  induction bs generalizing cur with
  | nil =>
    by_cases hnil : cur = []
    · rw [hnil]
      rfl
    · have hlines : getlines cur [] = [cur] := if_neg hnil
      rw [hlines] at h
      have hlast := List.mem_of_getLast? (h cur List.mem_cons_self)
      exact absurd hlast hcur
  | cons b bs ih =>
    unfold getlines at h ⊢
    by_cases hb : b = 10
    · rw [if_pos hb] at h ⊢
      have hrest := ih List.not_mem_nil fun line hline => h line (List.mem_cons_of_mem _ hline)
      rw [hb, List.splitOn_append_cons_self_of_not_mem hcur, List.map_cons, List.dropLast_concat]
      exact congrArg _ hrest
    · rw [if_neg hb] at h ⊢
      have hcur' : 10 ∉ cur ++ [b] := by
        simpa using ⟨hcur, Ne.symm hb⟩
      rw [← ih hcur' h, List.append_assoc, List.singleton_append]

/-- The expressions of lines that end with a line feed. -/
def expressionsOf (lines : List Bytes) : List Bytes :=
  (lines.map fun line => bufferString line.dropLast).filter fun line => line ≠ []

theorem bufferString_of_notMem {line : Bytes} (h : 0 ∉ line) : bufferString line = line := by
  apply List.takeWhile_eq_self_iff.mpr
  intro b hb
  have hne : b ≠ 0 := fun heq => h (heq ▸ hb)
  exact decide_eq_true hne

/-- Without NUL bytes the strings of the lines are the lines. -/
theorem expressionsOf_getlines {rules : Bytes} (h : Terminated (getlines [] rules))
    (hnul : 0 ∉ rules) : expressionsOf (getlines [] rules) = fileLines rules := by
  have hsplit := splitOn_eq List.not_mem_nil h
  rw [List.nil_append] at hsplit
  have hlines : (getlines [] rules).map (fun line => bufferString line.dropLast) =
      (getlines [] rules).map List.dropLast := by
    refine List.map_congr_left fun line hline => bufferString_of_notMem fun hzero => hnul ?_
    have hmem : line.dropLast ∈ rules.splitOn 10 := by
      rw [hsplit]
      exact List.mem_append_left _ (List.mem_map_of_mem hline)
    exact (Text.of_mem_splitOn hmem hzero).1
  rw [expressionsOf, hlines, fileLines, hsplit, List.filter_append]
  exact (List.append_nil _).symm

/-- The count of the lines wraps at `2 ^ 32`. -/
theorem toNat_countExpressions (lines : List Bytes) :
    (countExpressions lines).toNat = lines.length % 2 ^ 32 := by
  have hfold : ∀ (ls : List Bytes) (n : UInt32),
      ls.foldl (fun expressionCount _ => expressionCount + 1) n = n + UInt32.ofNat ls.length := by
    intro ls
    induction ls with
    | nil => exact fun n => (UInt32.add_zero n).symm
    | cons l ls ih =>
      intro n
      rw [List.foldl_cons, ih, List.length_cons, UInt32.ofNat_add, UInt32.add_assoc,
        UInt32.add_comm 1]
      rfl
  rw [countExpressions, hfold, UInt32.zero_add]
  exact UInt32.toNat_ofNat'

theorem expressionsOf_cons_blank {line : Bytes} (h : bufferString line.dropLast = [])
    (lines : List Bytes) : expressionsOf (line :: lines) = expressionsOf lines := by
  rw [expressionsOf, List.map_cons, List.filter_cons_of_neg (by simpa using h)]
  rfl

theorem expressionsOf_cons {line : Bytes} (h : bufferString line.dropLast ≠ [])
    (lines : List Bytes) :
    expressionsOf (line :: lines) = bufferString line.dropLast :: expressionsOf lines := by
  rw [expressionsOf, List.map_cons, List.filter_cons_of_pos (by simpa using h)]
  rfl

theorem toNat_sub_one {n : UInt32} (h : 1 ≤ n.toNat) : (n - 1).toNat = n.toNat - 1 := by
  have hle : (1 : UInt32) ≤ n := by
    rw [UInt32.le_iff_toNat_le]
    exact h
  rw [UInt32.toNat_sub_of_le _ _ hle]
  rfl

theorem toNat_add_one {n : UInt32} (h : n.toNat + 1 < 2 ^ 32) : (n + 1).toNat = n.toNat + 1 := by
  rw [UInt32.toNat_add]
  show (n.toNat + 1) % 2 ^ 32 = n.toNat + 1
  omega

/-- The second pass reads as many lines as `expression_count` is ahead of `i`. -/
theorem readExpressions_eq {lines : List Bytes} {i expressionCount : UInt32}
    {expressions : List Bytes} {m : ℕ} (hm : expressionCount.toNat = i.toNat + m)
    (hlen : m ≤ lines.length) {n : UInt32} {out : List Bytes}
    (h : readExpressions lines i expressionCount expressions = some (n, out)) :
    Terminated (lines.take m) ∧ out = expressions ++ expressionsOf (lines.take m) ∧
      n.toNat = i.toNat + (expressionsOf (lines.take m)).length := by
  induction lines generalizing i expressionCount expressions m with
  | nil =>
    obtain rfl : m = 0 := Nat.le_zero.mp hlen
    obtain ⟨rfl, rfl⟩ := Prod.mk.inj (Option.some.inj h)
    exact ⟨fun line hline => absurd hline List.not_mem_nil, (List.append_nil _).symm, hm⟩
  | cons line lines ih =>
    unfold readExpressions at h
    match m with
    | 0 =>
      have hge : ¬ i < expressionCount := by
        rw [UInt32.lt_iff_toNat_lt]
        omega
      rw [if_neg hge] at h
      obtain ⟨rfl, rfl⟩ := Prod.mk.inj (Option.some.inj h)
      exact ⟨fun line hline => absurd hline List.not_mem_nil, (List.append_nil _).symm, hm⟩
    | m + 1 =>
      have hlt : i < expressionCount := by
        rw [UInt32.lt_iff_toNat_lt]
        omega
      have hbound := expressionCount.toNat_lt
      rw [if_pos hlt] at h
      rw [List.length_cons] at hlen
      by_cases hlast : line.getLast? = some 10
      · simp only [if_pos hlast] at h
        -- a blank line lowers the count and takes no place
        by_cases hblank : bufferString line.dropLast = []
        · rw [if_pos hblank] at h
          have hcount : (expressionCount - 1).toNat = i.toNat + m := by
            rw [toNat_sub_one (by omega)]
            omega
          obtain ⟨hterm, hout, hn⟩ := ih hcount (by omega) h
          rw [List.take_succ_cons, expressionsOf_cons_blank hblank]
          exact ⟨List.forall_mem_cons.mpr ⟨hlast, hterm⟩, hout, hn⟩
        · rw [if_neg hblank] at h
          have hi : (i + 1).toNat = i.toNat + 1 := toNat_add_one (by omega)
          have hcount : expressionCount.toNat = (i + 1).toNat + m := by omega
          obtain ⟨hterm, hout, hn⟩ := ih hcount (by omega) h
          rw [List.take_succ_cons, expressionsOf_cons hblank, List.length_cons]
          refine ⟨List.forall_mem_cons.mpr ⟨hlast, hterm⟩, ?_, by omega⟩
          rw [hout, List.append_assoc, List.singleton_append]
      · simp only [if_neg hlast] at h
        cases h

/-- Rules that are read as they are: the number of lines fits in `expression_count`, and no line has
a NUL byte. -/
def ReadAsTheyAre (rules : Bytes) : Prop := (getlines [] rules).length < 2 ^ 32 ∧ 0 ∉ rules

/-- What is compiled are the lines that are not blank. -/
theorem compileRules_eq_some {DB : Type} {libs : HsLibs DB} {call : HsCall} {db : DB}
    (hrules : ReadAsTheyAre call.rules) (h : libs.compileRules call = some db) :
    libs.compileMulti (fileLines call.rules) call.flags = some db := by
  have hcount : (countExpressions (getlines [] call.rules)).toNat =
      (0 : UInt32).toNat + (getlines [] call.rules).length := by
    rw [toNat_countExpressions, Nat.mod_eq_of_lt hrules.1]
    exact (Nat.zero_add _).symm
  simp only [HsLibs.compileRules, HsLibs.compileLines] at h
  split at h
  · cases h
  · split at h
    · cases h
    · rename_i n out hread
      obtain ⟨hterm, hout, hn⟩ := readExpressions_eq hcount (le_refl _) hread
      rw [List.take_length] at hterm hout hn
      have hlen : n.toNat = out.length := by
        rw [hn, hout, List.nil_append]
        exact Nat.zero_add _
      rw [List.append_nil, hlen, List.take_length, hout, List.nil_append,
        expressionsOf_getlines hterm hrules.2] at h
      exact h

/-! ## What the libraries are documented to do -/

/-- Deserializing inverts serializing, and rejects a serialized database that was cut off. -/
structure HsLibs.Documented {DB : Type} (libs : HsLibs DB) : Prop where
  deserialize_serialize : ∀ db, libs.deserializeDatabase (libs.serializeDatabase db) = some db
  deserialize_prefix : ∀ db buffer, buffer <+: libs.serializeDatabase db →
    buffer ≠ libs.serializeDatabase db → libs.deserializeDatabase buffer = none

/-- What the code counts on without looking: the rules are read as they are and to their end, and
the second digest is computed. -/
def HsAct.Handled : HsAct → Prop
  | .call c => ReadAsTheyAre c.rules
  | .unchecked _ => False
  | .short _ => False
  | .shortPasses _ _ _ => False
  | _ => True

/-! ## The cache -/

section

variable {DB : Type} {libs : HsLibs DB} {calls : Set HsCall}

/-- `db` is the database of the rules of a call. -/
def Own (libs : HsLibs DB) (call : HsCall) (db : DB) : Prop :=
  libs.compileMulti (fileLines call.rules) call.flags = some db

/-- Every cache file is a prefix of what a call with its digest and flags writes. -/
def CacheInv (libs : HsLibs DB) (calls : Set HsCall) (files : Text → Option Bytes) : Prop :=
  ∀ hash flags path bytes, hsDbCacheConstructFpath hash flags = some path →
    files path = some bytes → ∃ call ∈ calls, ∃ db, libs.md5 call.rules = hash ∧
      call.flags = flags ∧ Own libs call db ∧ bytes <+: libs.serializeDatabase db

/-- What a call has computed so far. -/
def PhaseInv (libs : HsLibs DB) (calls : Set HsCall) : HsPhase DB → Prop
  | .idle => True
  | .hashing call => call ∈ calls
  | .loading call path =>
    call ∈ calls ∧ hsDbCacheConstructFpath (libs.md5 call.rules) call.flags = some path
  | .compiling call => call ∈ calls
  | .serializing call db => call ∈ calls ∧ Own libs call db
  | .rehashing call db stream =>
    call ∈ calls ∧ Own libs call db ∧ stream = libs.serializeDatabase db
  | .opening call db stream path =>
    call ∈ calls ∧ Own libs call db ∧ stream = libs.serializeDatabase db ∧
      hsDbCacheConstructFpath (libs.md5 call.rules) call.flags = some path
  | .writing call db stream path =>
    call ∈ calls ∧ Own libs call db ∧ stream = libs.serializeDatabase db ∧
      hsDbCacheConstructFpath (libs.md5 call.rules) call.flags = some path

/-- A call that returned 0 has the database of its own rules and flags; one that found it in the
cache found all of it. -/
def HsReturn.Transparent (libs : HsLibs DB) (r : HsReturn DB) : Prop :=
  Own libs r.call r.db ∧ ∀ buffer, r.buffer = some buffer → buffer = libs.serializeDatabase r.db

structure HsInv (libs : HsLibs DB) (calls : Set HsCall) (s : HsState DB) : Prop where
  cache : CacheInv libs calls s.files
  phase : PhaseInv libs calls s.phase
  returned : ∀ r ∈ s.returned, r.Transparent libs

/-- The cache file of a call holds a prefix of its own database. -/
theorem CacheInv.own {files : Text → Option Bytes} (h : CacheInv libs calls files)
    (hmd5 : Set.InjOn libs.md5 (HsCall.rules '' calls)) {call : HsCall} (hcall : call ∈ calls)
    {path : Text} {bytes : Bytes}
    (hpath : hsDbCacheConstructFpath (libs.md5 call.rules) call.flags = some path)
    (hfile : files path = some bytes) :
    ∃ db, Own libs call db ∧ bytes <+: libs.serializeDatabase db := by
  obtain ⟨call', hcall', db, hhash, hflags, hown, hprefix⟩ := h _ _ path bytes hpath hfile
  have hrules : call'.rules = call.rules :=
    hmd5 (Set.mem_image_of_mem _ hcall') (Set.mem_image_of_mem _ hcall) hhash
  unfold Own at hown
  rw [hrules, hflags] at hown
  exact ⟨db, hown, hprefix⟩

/-- Writing a prefix of the database of a call to the cache file of the call. -/
theorem CacheInv.update {files : Text → Option Bytes} (h : CacheInv libs calls files)
    {call : HsCall} (hcall : call ∈ calls) {db : DB} (hown : Own libs call db) {path : Text}
    (hpath : hsDbCacheConstructFpath (libs.md5 call.rules) call.flags = some path)
    {bytes : Bytes} (hbytes : bytes <+: libs.serializeDatabase db) :
    CacheInv libs calls (Function.update files path (some bytes)) := by
  intro hash flags path' bytes' hpath' hfile
  by_cases heq : path' = path
  · rw [heq, Function.update_self] at hfile
    rw [heq] at hpath'
    obtain ⟨hhash, hflags⟩ := construct_fpath_injective hpath hpath'
    exact ⟨call, hcall, db, hhash, hflags, hown, Option.some.inj hfile ▸ hbytes⟩
  · rw [Function.update_of_ne heq] at hfile
    exact h hash flags path' bytes' hpath' hfile

namespace HsInv

variable {s t : HsState DB} {call : HsCall}

theorem init {files : Text → Option Bytes}
    (hfresh : ∀ hash flags path, hsDbCacheConstructFpath hash flags = some path →
      files path = none) : HsInv libs calls (HsState.init files) where
  cache := by
    intro hash flags path bytes hpath hfile
    have hnone : files path = none := hfresh hash flags path hpath
    exact absurd (hnone.symm.trans hfile) (by simp)
  phase := trivial
  returned := fun r hr => absurd hr List.not_mem_nil

/-- A step that only moves on. -/
theorem move (h : HsInv libs calls s) {phase : HsPhase DB} (hphase : PhaseInv libs calls phase) :
    HsInv libs calls { s with phase := phase } := ⟨h.cache, hphase, h.returned⟩

/-- A step that returns 0. -/
theorem finish (h : HsInv libs calls s) {r : HsReturn DB} (hr : r.Transparent libs)
    {files : Text → Option Bytes} (hfiles : CacheInv libs calls files) :
    HsInv libs calls { s with files := files, phase := .idle, returned := s.returned ++ [r] } where
  cache := hfiles
  phase := trivial
  returned := by
    intro r' hr'
    rcases List.mem_append.mp hr' with hr' | hr'
    · exact h.returned r' hr'
    · exact List.mem_singleton.mp hr' ▸ hr

/-- A call that loads a database gets its own. -/
theorem load (hlibs : libs.Documented) (hmd5 : Set.InjOn libs.md5 (HsCall.rules '' calls))
    (h : HsInv libs calls s) {path : Text} (hcall : call ∈ calls)
    (hpath : hsDbCacheConstructFpath (libs.md5 call.rules) call.flags = some path) :
    HsInv libs calls (s.load libs call path) := by
  unfold HsState.load
  match hfile : s.files path with
  | none => exact h.move hcall
  | some buffer =>
    obtain ⟨db, hown, hprefix⟩ := h.cache.own hmd5 hcall hpath hfile
    -- a buffer that is accepted was not cut off
    by_cases hcut : buffer = libs.serializeDatabase db
    · have hload : libs.deserializeDatabase buffer = some db := by
        rw [hcut]
        exact hlibs.deserialize_serialize db
      simp only [hload]
      exact h.finish ⟨hown, fun buffer' hbuffer => (Option.some.inj hbuffer).symm.trans hcut⟩
        h.cache
    · simp only [hlibs.deserialize_prefix db buffer hprefix hcut]
      exact h.move hcall

theorem loadFor (h : HsInv libs calls s) (hcall : call ∈ calls) :
    HsInv libs calls (s.loadFor call (libs.md5 call.rules)) := by
  unfold HsState.loadFor
  match hpath : hsDbCacheConstructFpath (libs.md5 call.rules) call.flags with
  | some path => exact h.move ⟨hcall, hpath⟩
  | none => exact h.move trivial

theorem compile (h : HsInv libs calls s) (hcall : call ∈ calls) {db : Option DB}
    (hdb : ∀ d, db = some d → Own libs call d) : HsInv libs calls (s.compile call db) := by
  match db with
  | some d => exact h.move ⟨hcall, hdb d rfl⟩
  | none => exact h.move trivial

theorem openFor (h : HsInv libs calls s) {db : DB} {stream : Bytes} (hcall : call ∈ calls)
    (hown : Own libs call db) (hstream : stream = libs.serializeDatabase db) :
    HsInv libs calls (s.openFor call db stream (libs.md5 call.rules)) := by
  unfold HsState.openFor
  match hpath : hsDbCacheConstructFpath (libs.md5 call.rules) call.flags with
  | some path => exact h.move ⟨hcall, hown, hstream, hpath⟩
  | none => exact h.move trivial

/-- Where a call goes on, it keeps what is known of its database. -/
theorem succeed (hlibs : libs.Documented) (hmd5 : Set.InjOn libs.md5 (HsCall.rules '' calls))
    (hrules : ∀ call ∈ calls, ReadAsTheyAre call.rules)
    (h : HsInv libs calls s) (ht : s.succeed libs = some t) : HsInv libs calls t := by
  have hphase := h.phase
  unfold HsState.succeed at ht
  match hs : s.phase with
  | .idle =>
    rw [hs] at ht
    cases ht
  | .hashing call =>
    rw [hs] at hphase ht
    exact Option.some.inj ht ▸ h.loadFor hphase
  | .loading call path =>
    rw [hs] at hphase ht
    exact Option.some.inj ht ▸ h.load hlibs hmd5 hphase.1 hphase.2
  | .compiling call =>
    rw [hs] at hphase ht
    have hown : ∀ d, libs.compileRules call = some d → Own libs call d := fun d hd =>
      compileRules_eq_some (hrules call hphase) hd
    exact Option.some.inj ht ▸ h.compile hphase hown
  | .serializing call db =>
    rw [hs] at hphase ht
    exact Option.some.inj ht ▸ h.move ⟨hphase.1, hphase.2, rfl⟩
  | .rehashing call db stream =>
    rw [hs] at hphase ht
    obtain ⟨hcall, hown, hstream⟩ := hphase
    exact Option.some.inj ht ▸ h.openFor hcall hown hstream
  | .opening call db stream path =>
    rw [hs] at hphase ht
    obtain ⟨hcall, hown, hstream, hpath⟩ := hphase
    rw [← Option.some.inj ht]
    exact ⟨h.cache.update hcall hown hpath List.nil_prefix, ⟨hcall, hown, hstream, hpath⟩,
      h.returned⟩
  | .writing call db stream path =>
    rw [hs] at hphase ht
    obtain ⟨hcall, hown, hstream, hpath⟩ := hphase
    rw [← Option.some.inj ht, hstream]
    exact h.finish ⟨hown, fun buffer hbuffer => by cases hbuffer⟩
      (h.cache.update hcall hown hpath (List.prefix_refl _))

/-- A library call that fails leaves the cache files as they are. -/
theorem fail (h : HsInv libs calls s) (ht : s.fail = some t) : HsInv libs calls t := by
  have hphase := h.phase
  unfold HsState.fail at ht
  match hs : s.phase with
  | .idle =>
    rw [hs] at ht
    cases ht
  | .hashing call =>
    rw [hs] at hphase ht
    exact Option.some.inj ht ▸ h.move hphase
  | .loading call path =>
    rw [hs] at hphase ht
    exact Option.some.inj ht ▸ h.move hphase.1
  | .compiling call =>
    rw [hs] at ht
    exact Option.some.inj ht ▸ h.move trivial
  | .serializing call db =>
    rw [hs] at ht
    exact Option.some.inj ht ▸ h.move trivial
  | .rehashing call db stream =>
    rw [hs] at ht
    cases ht
  | .opening call db stream path =>
    rw [hs] at ht
    exact Option.some.inj ht ▸ h.move trivial
  | .writing call db stream path =>
    rw [hs] at ht
    exact Option.some.inj ht ▸ h.move trivial

/-- Writing more of a cache file leaves a part of it. -/
theorem flush (h : HsInv libs calls s) {n : ℕ} (ht : s.step libs (.flush n) = some t) :
    HsInv libs calls t := by
  have hphase := h.phase
  unfold HsState.step at ht
  match hs : s.phase with
  | .writing call db stream path =>
    rw [hs] at hphase
    simp only [hs] at ht
    obtain ⟨hcall, hown, hstream, hpath⟩ := hphase
    have hprefix : stream.take n <+: libs.serializeDatabase db := hstream ▸ List.take_prefix n _
    rw [← Option.some.inj ht]
    exact ⟨h.cache.update hcall hown hpath hprefix, ⟨hcall, hown, hstream, hpath⟩, h.returned⟩
  | .idle | .hashing _ | .loading _ _ | .compiling _ | .serializing _ _ | .rehashing _ _ _
  | .opening _ _ _ _ =>
    simp only [hs] at ht
    cases ht

/-- What each step preserves. -/
theorem step (hlibs : libs.Documented) (hmd5 : Set.InjOn libs.md5 (HsCall.rules '' calls))
    (hrules : ∀ call ∈ calls, ReadAsTheyAre call.rules) {a : HsAct}
    (ha : a.Handled) (hcalls : ∀ call, a = .call call → call ∈ calls)
    (h : HsInv libs calls s) (ht : s.step libs a = some t) : HsInv libs calls t := by
  match a with
  | .call call =>
    unfold HsState.step at ht
    simp only at ht
    split at ht
    · exact Option.some.inj ht ▸ h.move (hcalls call rfl)
    · cases ht
  | .succeed => exact h.succeed hlibs hmd5 hrules ht
  | .fail => exact h.fail ht
  | .flush n => exact h.flush ht
  | .unchecked digest => exact absurd ha (fun hfalse => hfalse)
  | .short n => exact absurd ha (fun hfalse => hfalse)
  | .shortPasses n m unset => exact absurd ha (fun hfalse => hfalse)
  | .kill => exact Option.some.inj ht ▸ h.move trivial

end HsInv

end

/-- In every run of calls on any rules and flags, each of which fails or is killed anywhere, every
call that returned 0 has the database of its own rules, as long as nothing fails that the code does
not look at. -/
theorem returned_own {DB : Type} (libs : HsLibs DB) (hlibs : libs.Documented)
    (files : Text → Option Bytes)
    (hfresh : ∀ hash flags path, hsDbCacheConstructFpath hash flags = some path →
      files path = none)
    (as : List HsAct) (hmd5 : Set.InjOn libs.md5 {rules | ∃ flags, .call ⟨rules, flags⟩ ∈ as})
    (hhandled : ∀ a ∈ as, a.Handled) (s : HsState DB)
    (hrun : run (HsState.step libs) (HsState.init files) as = some s) :
    ∀ r ∈ s.returned, r.Transparent libs := by
  have hcalls : HsCall.rules '' {call | .call call ∈ as} =
      {rules | ∃ flags, .call ⟨rules, flags⟩ ∈ as} := by
    apply Set.ext
    intro rules
    constructor
    · intro ⟨call, hcall, hrules⟩
      exact ⟨call.flags, hrules ▸ hcall⟩
    · intro ⟨flags, hcall⟩
      exact ⟨⟨rules, flags⟩, hcall, rfl⟩
  have hinv : (∀ a ∈ as, a ∈ as) → HsInv libs {call | .call call ∈ as} s := by
    refine run_history (P := fun pre s => (∀ a ∈ pre, a ∈ as) →
      HsInv libs {call | .call call ∈ as} s) ?_ (fun _ => HsInv.init hfresh) hrun
    intro pre s a t ih ht hpre
    have ha : a ∈ as := hpre a (by simp)
    refine HsInv.step hlibs (hcalls ▸ hmd5) (fun call hcall => hhandled _ hcall)
      (hhandled a ha) (fun call heq => ?_) (ih fun b hb => hpre b ?_) ht
    · rw [heq] at ha
      exact ha
    · exact List.mem_append_left _ hb
  exact (hinv fun a ha => ha).returned

/-! ## Two examples of a database -/

/-- A number in unary. -/
def unary (n : ℕ) : Bytes := List.replicate n 1 ++ [0]

theorem length_unary (n : ℕ) : (unary n).length = n + 1 := by simp [unary]

/-- A database that knows the number of its expressions. -/
def countLibs : HsLibs ℕ where
  md5 := fun _ => [0x60, 0xb7, 0x25, 0xf1, 0x0c, 0x9c, 0x85, 0xc7, 0x0d, 0x97, 0x88, 0x0d, 0xfe,
    0x81, 0x91, 0xb3]
  compileMulti := fun expressions _ => if expressions = [] then none else some expressions.length
  serializeDatabase := unary
  deserializeDatabase := fun buffer =>
    if buffer = unary (buffer.length - 1) then some (buffer.length - 1) else none

theorem countLibs_documented : countLibs.Documented where
  deserialize_serialize := by
    intro n
    have hlen : (unary n).length - 1 = n := by
      rw [length_unary]
      omega
    show (if unary n = unary ((unary n).length - 1) then some ((unary n).length - 1) else none) =
      some n
    rw [hlen, if_pos rfl]
  deserialize_prefix := by
    intro n buffer hprefix hne
    apply if_neg
    intro hbuffer
    -- the end of a database does not occur in it earlier
    have hmem : (0 : UInt8) ∉ buffer := by
      rcases List.prefix_concat_iff.mp hprefix with heq | hones
      · exact absurd heq hne
      · intro hzero
        have := List.eq_of_mem_replicate (hones.subset hzero)
        exact absurd this (by decide)
    rw [hbuffer] at hmem
    exact hmem (by simp [unary])

/-- A call that is killed while it writes, one that writes all of it and one that reads it. -/
def threeCalls : List HsAct :=
  [.call ⟨[97, 10], 0⟩, .succeed, .succeed, .succeed, .succeed, .succeed, .succeed, .flush 1, .kill,
    .call ⟨[97, 10], 0⟩, .succeed, .succeed, .succeed, .succeed, .succeed, .succeed, .succeed,
    .call ⟨[97, 10], 0⟩, .succeed, .succeed]

set_option maxRecDepth 8000 in
theorem returned_own_threeCalls :
    ∃ s, run (HsState.step countLibs) (HsState.init fun _ => none) threeCalls = some s ∧
      s.returned.map (fun r => r.buffer) = [none, some [1, 0]] ∧
      ∀ r ∈ s.returned, r.Transparent countLibs := by
  obtain ⟨s, hrun, hreturned⟩ : ∃ s, run (HsState.step countLibs) (HsState.init fun _ => none)
      threeCalls = some s ∧ s.returned.map (fun r => r.buffer) = [none, some [1, 0]] :=
    ⟨_, rfl, rfl⟩
  refine ⟨s, hrun, hreturned, returned_own countLibs countLibs_documented _ (fun _ _ _ _ => rfl)
    threeCalls ?_ ?_ s hrun⟩
  · have hrules : ∀ rules flags, .call ⟨rules, flags⟩ ∈ threeCalls → rules = [97, 10] := by
      intro rules flags hmem
      simp only [threeCalls, List.mem_cons, HsAct.call.injEq, HsCall.mk.injEq, reduceCtorEq,
        List.not_mem_nil, false_or, or_false] at hmem
      rcases hmem with hmem | hmem | hmem
      · exact hmem.1
      · exact hmem.1
      · exact hmem.1
    intro rules ⟨flags, hmem⟩ rules' ⟨flags', hmem'⟩ _
    rw [hrules rules flags hmem, hrules rules' flags' hmem']
  · have hrules : ReadAsTheyAre [97, 10] := ⟨by decide, by decide⟩
    simpa [threeCalls, HsAct.Handled] using hrules

/-- A call that does not look at the cache and succeeds from there on. -/
def oneCall (call : HsCall) : List HsAct :=
  [.call call, .fail, .succeed, .succeed, .succeed, .succeed, .succeed]

theorem eq_of_mem_oneCall {call c : HsCall} (h : .call c ∈ oneCall call) : c = call := by
  simp only [oneCall, List.mem_cons, HsAct.call.injEq, reduceCtorEq, List.not_mem_nil,
    or_false] at h
  exact h

/-- It returns what it compiled. -/
theorem exists_run_of_compiled {DB : Type} {libs : HsLibs DB} {call : HsCall} {db : DB}
    (hdb : libs.compileRules call = some db) {path : Text}
    (hpath : hsDbCacheConstructFpath (libs.md5 call.rules) call.flags = some path)
    (files : Text → Option Bytes) :
    ∃ s, run (HsState.step libs) (HsState.init files) (oneCall call) = some s ∧
      s.returned = [⟨call, none, db⟩] := by
  simp only [oneCall, run_cons, HsState.init, HsState.step, HsState.fail, HsState.succeed,
    Option.bind_some, hdb, HsState.compile, HsState.openFor, hpath, run_nil]
  exact ⟨_, rfl, rfl⟩

/-- `n` lines with the expression `a`. -/
def manyLines (n : ℕ) : Bytes := (List.replicate n [97, 10]).flatten

theorem getlines_manyLines (n : ℕ) : getlines [] (manyLines n) = List.replicate n [97, 10] := by
  induction n with
  | zero => rfl
  | succ n ih =>
    rw [manyLines, List.replicate_succ, List.flatten_cons]
    exact congrArg _ ih

theorem terminated_manyLines (n : ℕ) : Terminated (getlines [] (manyLines n)) := by
  intro line hline
  rw [getlines_manyLines] at hline
  rw [List.eq_of_mem_replicate hline]
  rfl

theorem fileLines_manyLines (n : ℕ) : fileLines (manyLines n) = List.replicate n [97] := by
  have hnul : 0 ∉ manyLines n := by
    intro hzero
    obtain ⟨line, hline, hmem⟩ := List.mem_flatten.mp hzero
    rw [List.eq_of_mem_replicate hline] at hmem
    exact absurd hmem (by decide)
  rw [← expressionsOf_getlines (terminated_manyLines n) hnul, getlines_manyLines, expressionsOf,
    List.map_replicate]
  apply List.filter_eq_self.mpr
  intro line hline
  rw [List.eq_of_mem_replicate hline]
  rfl

/-- Lines that wrap the count around to one. -/
theorem compileRules_manyLines {n : ℕ} (hn : (n + 1) % 2 ^ 32 = 1) :
    countLibs.compileRules ⟨manyLines (n + 1), 0⟩ = some 1 := by
  have hcount : countExpressions (getlines [] (manyLines (n + 1))) = 1 := by
    apply UInt32.toNat_inj.mp
    rw [toNat_countExpressions, getlines_manyLines, List.length_replicate, hn]
    rfl
  have hread : readExpressions (getlines [] (manyLines (n + 1))) 0 1 [] = some (1, [[97]]) := by
    rw [getlines_manyLines, List.replicate_succ]
    match n with
    | 0 => rfl
    | n + 1 => rfl
  simp only [HsLibs.compileRules, HsLibs.compileLines, hcount, hread]
  rfl

/-- A file of `2 ^ 32 + 1` lines: one of them is compiled. -/
theorem not_returned_own :
    ¬ ∀ as s, Set.InjOn countLibs.md5 {rules | ∃ flags, .call ⟨rules, flags⟩ ∈ as} →
      run (HsState.step countLibs) (HsState.init fun _ => none) as = some s →
      ∀ r ∈ s.returned, r.Transparent countLibs := by
  intro hall
  have hpath : ∀ rules flags, ∃ path,
      hsDbCacheConstructFpath (countLibs.md5 rules) flags = some path :=
    fun rules flags => ⟨_, rfl⟩
  have hdb : countLibs.compileRules ⟨manyLines (2 ^ 32 + 1), 0⟩ = some 1 :=
    compileRules_manyLines (by decide)
  obtain ⟨path, hpath⟩ := hpath (manyLines (2 ^ 32 + 1)) 0
  obtain ⟨s, hrun, hreturned⟩ := exists_run_of_compiled hdb hpath fun _ => none
  have hinj : Set.InjOn countLibs.md5
      {rules | ∃ flags, .call ⟨rules, flags⟩ ∈ oneCall ⟨manyLines (2 ^ 32 + 1), 0⟩} := by
    intro rules ⟨flags, hmem⟩ rules' ⟨flags', hmem'⟩ _
    rw [(HsCall.mk.inj (eq_of_mem_oneCall hmem)).1, (HsCall.mk.inj (eq_of_mem_oneCall hmem')).1]
  have hown := (hall _ s hinj hrun _ (hreturned ▸ List.mem_singleton_self _)).1
  have hne : List.replicate (2 ^ 32 + 1) [(97 : UInt8)] ≠ [] := by
    intro hnil
    have := congrArg List.length hnil
    rw [List.length_replicate] at this
    exact absurd this (by decide)
  have hcount : (if List.replicate (2 ^ 32 + 1) [(97 : UInt8)] = [] then none
      else some (List.replicate (2 ^ 32 + 1) [(97 : UInt8)]).length) = some 1 := by
    rw [← fileLines_manyLines]
    exact hown
  rw [if_neg hne, List.length_replicate] at hcount
  exact absurd hcount (by decide)

end RegexTest
end PamoRxpBench
