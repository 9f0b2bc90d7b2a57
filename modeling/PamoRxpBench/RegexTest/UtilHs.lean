import PamoRxpBench.Library.Hex
import PamoRxpBench.Library.Runs
import Mathlib.Logic.Function.Basic

/-!
# `regex-test`: the cache of Hyperscan databases

`hs_init_db` looks for a serialized database in `/tmp` before it compiles the rules, and leaves
one there afterwards. A step is what a call does up to the next library call that can fail, so a
run is a sequence of calls, each of which ends where the environment lets it fail or kills it.

The rules of a call do not change while it runs. `file_to_md5` and the two passes over the rules
take a failed read for the end of the file (`HsAct.short`, `HsAct.shortPasses`); `hs_read_stream`
looks at how much it has read.
-/

namespace PamoRxpBench
namespace RegexTest

/-- The content of a file. -/
abbrev Bytes := List UInt8

/-- What `util-hs.c` uses of OpenSSL and of Hyperscan. `compileMulti` is `hs_compile_multi` in
block mode, where every expression has the same flags and id. -/
structure HsLibs (DB : Type) where
  md5 : Bytes → List UInt8
  compileMulti : List Bytes → UInt32 → Option DB
  serializeDatabase : DB → Bytes
  deserializeDatabase : Bytes → Option DB

/-! ## Reading the rules -/

/-- The lines that `getline` returns, with their ends; `cur` is the line read so far. -/
def getlines (cur : Bytes) : Bytes → List Bytes
  | [] => if cur = [] then [] else [cur]
  | b :: bs => if b = 10 then (cur ++ [b]) :: getlines [] bs else getlines (cur ++ [b]) bs

/-- The string that starts a buffer. -/
def bufferString (buffer : Bytes) : Bytes := buffer.takeWhile fun b => b ≠ 0

/-- The first pass: `expression_count`. -/
def countExpressions (lines : List Bytes) : UInt32 :=
  lines.foldl (fun expressionCount _ => expressionCount + 1) 0

/-- The second pass: `expression_count` and the expressions. `none` is `rte_panic`. -/
def readExpressions : List Bytes → UInt32 → UInt32 → List Bytes → Option (UInt32 × List Bytes)
  | [], _, expressionCount, expressions => some (expressionCount, expressions)
  | line :: lines, i, expressionCount, expressions =>
    if i < expressionCount then
      if line.getLast? = some 10 then
        let line := bufferString line.dropLast
        if line = [] then readExpressions lines i (expressionCount - 1) expressions
        else readExpressions lines (i + 1) expressionCount (expressions ++ [line])
      else none
    else some (expressionCount, expressions)

/-! ## A call of `hs_init_db` -/

/-- The arguments of a call: the content of the file `filename`, and `expr_flags`. -/
structure HsCall where
  rules : Bytes
  flags : UInt32
deriving DecidableEq, Repr

/-- `hs_db_cache_construct_fpath`; `none` is `rte_panic`. -/
def hsDbCacheConstructFpath (hashArr : List UInt8) (exprFlags : UInt32) : Option Text :=
  if hashArr.length * 2 + 255 > 2048 then none
  else some ("/tmp/".toList ++ (Hex.hexBytes hashArr ++
    '_' :: (Hex.hex exprFlags.toNat ++ "_v1.hsdb".toList)))

/-- From `fopen` of the rules to `hs_compile_multi`, for the lines of the two passes; `none` is
`rte_panic` or -1. `unset` is what the array of expressions holds behind those that were read. -/
def HsLibs.compileLines {DB : Type} (libs : HsLibs DB) (first second unset : List Bytes)
    (exprFlags : UInt32) : Option DB :=
  let expressionCount := countExpressions first
  -- `rte_malloc` of no bytes returns NULL
  if expressionCount = 0 then none
  else
    match readExpressions second 0 expressionCount [] with
    | none => none
    | some (expressionCount, expressions) =>
      libs.compileMulti ((expressions ++ unset).take expressionCount.toNat) exprFlags

/-- Both passes read the whole file. -/
def HsLibs.compileRules {DB : Type} (libs : HsLibs DB) (call : HsCall) : Option DB :=
  libs.compileLines (getlines [] call.rules) (getlines [] call.rules) [] call.flags

/-- The next library call of a call of `hs_init_db`. -/
inductive HsPhase (DB : Type)
  /-- No call is running. -/
  | idle
  /-- `file_to_md5` in `hs_init_db_from_cache`. -/
  | hashing (call : HsCall)
  /-- `fopen`, `hs_read_stream` and `hs_deserialize_database`. -/
  | loading (call : HsCall) (path : Text)
  /-- From `fopen` of the rules to `hs_compile_multi`. -/
  | compiling (call : HsCall)
  /-- `hs_serialize_database`. -/
  | serializing (call : HsCall) (db : DB)
  /-- `file_to_md5` in `hs_init_db`. -/
  | rehashing (call : HsCall) (db : DB) (stream : Bytes)
  /-- `fopen` of the cache file for writing. -/
  | opening (call : HsCall) (db : DB) (stream : Bytes) (path : Text)
  /-- `fwrite` and `fclose`. -/
  | writing (call : HsCall) (db : DB) (stream : Bytes) (path : Text)

/-- A call that returned 0: its database, and the cache file it came from, if any. -/
structure HsReturn (DB : Type) where
  call : HsCall
  buffer : Option Bytes
  db : DB

/-- The files of the cache directory, the call that is running and the calls that returned 0. -/
structure HsState (DB : Type) where
  files : Text → Option Bytes
  phase : HsPhase DB
  returned : List (HsReturn DB)

/-- No call was made yet. -/
def HsState.init {DB : Type} (files : Text → Option Bytes) : HsState DB where
  files := files
  phase := .idle
  returned := []

/-- What happens next. -/
inductive HsAct
  /-- `hs_init_db` is called. -/
  | call (call : HsCall)
  /-- The next library call succeeds. -/
  | succeed
  /-- It fails. -/
  | fail
  /-- `n` bytes of the stream are in the cache file. -/
  | flush (n : ℕ)
  /-- The second `file_to_md5` fails, which is not checked: the digest is whatever the
  variables hold. -/
  | unchecked (digest : List UInt8)
  /-- In `file_to_md5` a read fails behind `n` bytes: the digest is the one of these. -/
  | short (n : ℕ)
  /-- In the passes over the rules reads fail, behind `n` and `m` bytes. -/
  | shortPasses (n m : ℕ) (unset : List Bytes)
  /-- The process is killed. -/
  | kill

namespace HsState

variable {DB : Type} (libs : HsLibs DB) (s : HsState DB)

/-- The cache file of a digest is looked for next. -/
def loadFor (call : HsCall) (digest : List UInt8) : HsState DB :=
  match hsDbCacheConstructFpath digest call.flags with
  | some path => { s with phase := .loading call path }
  | none => { s with phase := .idle }

/-- What was compiled is serialized next. -/
def compile (call : HsCall) : Option DB → HsState DB
  | some db => { s with phase := .serializing call db }
  | none => { s with phase := .idle }

/-- `fopen` of the cache file of a digest comes next. -/
def openFor (call : HsCall) (db : DB) (stream : Bytes) (digest : List UInt8) : HsState DB :=
  match hsDbCacheConstructFpath digest call.flags with
  | some path => { s with phase := .opening call db stream path }
  | none => { s with phase := .idle }

/-- The database of the cache file, or else the rules are compiled. -/
def load (call : HsCall) (path : Text) : HsState DB :=
  match s.files path with
  | none => { s with phase := .compiling call }
  | some buffer =>
    match libs.deserializeDatabase buffer with
    | none => { s with phase := .compiling call }
    | some db => { s with
        phase := .idle
        returned := s.returned ++ [⟨call, some buffer, db⟩] }

/-- The next library call succeeds. -/
def succeed : Option (HsState DB) :=
  match s.phase with
  | .idle => none
  | .hashing call => some (s.loadFor call (libs.md5 call.rules))
  | .loading call path => some (s.load libs call path)
  | .compiling call => some (s.compile call (libs.compileRules call))
  | .serializing call db =>
    some { s with phase := .rehashing call db (libs.serializeDatabase db) }
  | .rehashing call db stream => some (s.openFor call db stream (libs.md5 call.rules))
  | .opening call db stream path => some { s with
      files := Function.update s.files path (some [])
      phase := .writing call db stream path }
  | .writing call db stream path => some { s with
      files := Function.update s.files path (some stream)
      phase := .idle
      returned := s.returned ++ [⟨call, none, db⟩] }

/-- The next library call fails: before the rules are compiled they are compiled, and
afterwards -1 is returned. -/
def fail : Option (HsState DB) :=
  match s.phase with
  | .idle => none
  | .hashing call => some { s with phase := .compiling call }
  | .loading call _ => some { s with phase := .compiling call }
  | .compiling _ => some { s with phase := .idle }
  | .serializing _ _ => some { s with phase := .idle }
  -- the result of `file_to_md5` is not looked at
  | .rehashing _ _ _ => none
  | .opening _ _ _ _ => some { s with phase := .idle }
  | .writing _ _ _ _ => some { s with phase := .idle }

/-- One step of `hs_init_db`. -/
def step : HsAct → Option (HsState DB)
  | .call call =>
    match s.phase with
    | .idle => some { s with phase := .hashing call }
    | _ => none
  | .succeed => s.succeed libs
  | .fail => s.fail
  | .flush n =>
    match s.phase with
    | .writing _ _ stream path =>
      some { s with files := Function.update s.files path (some (stream.take n)) }
    | _ => none
  | .unchecked digest =>
    match s.phase with
    | .rehashing call db stream => some (s.openFor call db stream digest)
    | _ => none
  | .short n =>
    match s.phase with
    | .hashing call =>
      if n < call.rules.length then some (s.loadFor call (libs.md5 (call.rules.take n))) else none
    | .rehashing call db stream =>
      if n < call.rules.length then some (s.openFor call db stream (libs.md5 (call.rules.take n)))
      else none
    | _ => none
  | .shortPasses n m unset =>
    match s.phase with
    | .compiling call =>
      if n < call.rules.length ∨ m < call.rules.length then
        some (s.compile call (libs.compileLines (getlines [] (call.rules.take n))
          (getlines [] (call.rules.take m)) unset call.flags))
      else none
    | _ => none
  | .kill => some { s with phase := .idle }

end HsState

end RegexTest
end PamoRxpBench
