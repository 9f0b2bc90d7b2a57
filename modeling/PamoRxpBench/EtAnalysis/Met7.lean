import Mathlib.Algebra.Order.Ring.Rat
import Mathlib.Algebra.Order.Ring.Int
import Mathlib.Algebra.Order.Field.Basic
import Mathlib.Algebra.BigOperators.Group.List.Basic
import Mathlib.Data.List.Sort
import Mathlib.Data.Finset.Card
import Mathlib.Data.Finset.Lattice.Basic
import PamoRxpBench.Library.Binary64
import PamoRxpBench.Library.Dict
import PamoRxpBench.Library.Json

/-!
# `et-analysis`: the analysis of rule groups

The functions of `met7.py` on the document that Suricata dumps. `none` stands for an exception,
which a document of another form raises. Numbers are rationals; the quotients of `analyze_mpm` are
rounded, those of `compute_metrics` are exact. The logarithm of `math` is a parameter.
-/

namespace PamoRxpBench
namespace EtAnalysis

open Json (field)

/-! ## Values of a document -/

/-- `j.get(key)`; only a dictionary has it. -/
def get (key : String) : Json → Option (Option Json)
  | .obj fields => some (field key.toList fields)
  | _ => none

/-- `key in j`. -/
def contains (key : String) : Json → Option Bool
  | .obj fields => some (field key.toList fields).isSome
  | .arr items => some (items.any fun
    | .str s => s = key.toList
    | _ => false)
  | .str s => some (key.toList <:+: s)
  | _ => none

/-- `for item in j`. -/
def iterate : Json → Option (List Json)
  | .obj fields => some (fields.map fun f => .str f.1)
  | .arr items => some items
  | .str s => some (s.map fun c => .str [c])
  | _ => none

/-- The value of a number; a truth value is one. -/
def number : Json → Option ℚ
  | .num q => some q
  | .bool b => some (if b then 1 else 0)
  | _ => none

/-- A value that can be a key of a dictionary. -/
inductive Key
  | none
  | num (q : ℚ)
  | str (s : Text)
deriving DecidableEq

/-- The key that a value is; lists and dictionaries are no keys. -/
def hashable : Json → Option Key
  | .null => some .none
  | .bool b => some (.num (if b then 1 else 0))
  | .num q => some (.num q)
  | .str s => some (.str s)
  | _ => none

/-! ## The rule groups -/

/-- A node with a rule group: the path to it, its signatures and its statistics. -/
structure Group where
  path : List Text
  sigs : List Json
  stats : Json

/-- `[rule.get("sig_id") for rule in rules if "sig_id" in rule]`. -/
def sigIds : List Json → Option (List Json)
  | [] => some []
  | rule :: rules => do
    if ← contains "sig_id" rule then
      let sig ← get "sig_id" rule
      let sigs ← sigIds rules
      return sig.getD .null :: sigs
    else sigIds rules

/-- `value`, or `default` where it is `None`. -/
def orDefault (value : Option Json) (default : Json) : Json :=
  match value with
  | none | some .null => default
  | some j => j

/-- What is recorded of a node with the key `rulegroup`. -/
def readGroup (path : List Text) (node : List (Text × Json)) (rulegroup : Json) :
    Option Group := do
  let rules ← get "rules" rulegroup
  let sigs ← sigIds (← iterate (rules.getD (.arr [])))
  let stats ← get "stats" rulegroup
  return ⟨path, sigs, orDefault (field "stats".toList node) (stats.getD (.obj []))⟩

/-- The group that is appended for a dictionary itself, if it has the key `rulegroup`. -/
def ownGroups (path : List Text) (node : List (Text × Json)) : Option (List Group) :=
  match field "rulegroup".toList node with
  | some rulegroup => (readGroup path node rulegroup).map fun group => [group]
  | none => some []

mutual

/-- `recursive_extract_groups`: the groups that it appends. -/
def recursiveExtractGroups (path : List Text) : Json → Option (List Group)
  | .obj fields => do
    let own ← ownGroups path fields
    let below ← extractFields path fields
    return own ++ below
  | .arr items => extractItems path 0 items
  | _ => some []

/-- The loop over `current_data.items()`. -/
def extractFields (path : List Text) : List (Text × Json) → Option (List Group)
  | [] => some []
  | (key, val) :: fields => do
    let groups ← recursiveExtractGroups (path ++ [key]) val
    let rest ← extractFields path fields
    return groups ++ rest

/-- The loop over `enumerate(current_data)`. -/
def extractItems (path : List Text) : ℕ → List Json → Option (List Group)
  | _, [] => some []
  | idx, item :: items => do
    let groups ← recursiveExtractGroups (path ++ [Text.decimal idx]) item
    let rest ← extractItems path (idx + 1) items
    return groups ++ rest

end

/-- The loop of `extract_groups` that goes down to the branch; `none` where there is none. -/
def descend : List Text → Json → Option Json
  | [], data => some data
  | key :: keys, .obj fields => (field key fields).bind (descend keys)
  | _, _ => none

/-- `extract_groups`. The message about a branch that is not there is left out. -/
def extractGroups (data : Json) (filterPath : Option Text) : Option (List Group) :=
  match filterPath with
  | none | some [] => recursiveExtractGroups [] data
  | some filterPath =>
    match descend (filterPath.splitOn '.') data with
    | none => some []
    | some branch => recursiveExtractGroups (filterPath.splitOn '.') branch

/-! ## `compute_metrics` -/

section Metrics

variable {σ : Type} [DecidableEq σ]

/-- What the two loops go through: every signature of a group, with `group_index`. -/
def indexedSigs (groups : List (List σ)) : List (σ × ℕ) :=
  groups.zipIdx.flatMap fun g => g.1.map fun sig => (sig, g.2)

/-- `rule_memberships`; a group is given by its signatures. -/
def ruleMemberships (groups : List (List σ)) : Dict σ (Finset ℕ) :=
  Dict.accumulate Prod.fst ∅ (fun members x => insert x.2 members) (indexedSigs groups)

/-- `multiplicities`. -/
def multiplicities (groups : List (List σ)) : List ℕ :=
  (ruleMemberships groups).values.map Finset.card

/-- `total_memberships`. -/
def totalMemberships (groups : List (List σ)) : ℕ := (multiplicities groups).sum

/-- The loop over the later groups: `overlap_sum` and `count_pairs`. -/
def overlapRow (g : Finset σ) (groupSigs : List (Finset σ)) (acc : ℕ × ℕ) : ℕ × ℕ :=
  groupSigs.foldl (fun acc h => (acc.1 + (g ∩ h).card, acc.2 + 1)) acc

/-- The loop over the pairs of groups. -/
def overlapLoop : List (Finset σ) → ℕ × ℕ → ℕ × ℕ
  | [], acc => acc
  | g :: groupSigs, acc => overlapLoop groupSigs (overlapRow g groupSigs acc)

/-- `overlap_sum` and `count_pairs` after the loop. -/
def overlaps (groups : List (List σ)) : ℕ × ℕ := overlapLoop (groups.map List.toFinset) (0, 0)

/-- `Counter(multiplicities)`. -/
def hist (groups : List (List σ)) : Dict ℕ ℕ := Dict.counter (multiplicities groups)

/-- What `compute_metrics` returns. -/
structure Metrics where
  avgSghPerRule : ℚ
  uniqueRuleCoverage : ℚ
  avgOverlapPerPair : ℚ
  entropy : ℚ
  multiplicityHistogram : Dict ℕ ℕ

/-- `compute_metrics`, of groups given by their signatures. -/
def metrics (log2 : ℚ → ℚ) (groups : List (List σ)) : Metrics :=
  let totalUniqueRules := (ruleMemberships groups).keys.length
  let overlaps := overlaps groups
  { avgSghPerRule :=
      if totalUniqueRules ≠ 0 then totalMemberships groups / totalUniqueRules else 0
    uniqueRuleCoverage :=
      if totalUniqueRules ≠ 0 then (multiplicities groups).count 1 / totalUniqueRules else 0
    avgOverlapPerPair :=
      if 1 < groups.length then if overlaps.2 ≠ 0 then overlaps.1 / overlaps.2 else 0 else 0
    entropy :=
      if totalUniqueRules ≠ 0 then
        -((hist groups).values.map fun count =>
          (count / totalUniqueRules : ℚ) * log2 (count / totalUniqueRules)).sum
      else 0
    multiplicityHistogram := hist groups }

end Metrics

/-- `compute_metrics`. -/
def computeMetrics (log2 : ℚ → ℚ) (groups : List Group) : Option Metrics := do
  let sigs ← groups.mapM fun group => group.sigs.mapM hashable
  return metrics log2 sigs

/-! ## `aggregate_protocol_composition` -/

/-- The name under which the value of a key is counted. -/
def protocolName (key : Text) : Text :=
  if key = "payload".toList then "IP".toList
  else if key = "http".toList ∨ key = "http_any".toList then "http".toList
  else key

/-- The body of the loop over `stats.items()`: what is added, if anything. -/
def protocolValue (entry : Text × Json) : Option (Option (Text × ℚ)) :=
  if entry.1 = "total".toList ∨ entry.1 = "types".toList then some none
  else
    match entry.2 with
    | .obj fields =>
      match field "total".toList fields with
      | none | some .null => some none
      | some value => (number value).map fun q => some (protocolName entry.1, q)
    | value => (number value).map fun q => some (protocolName entry.1, q)

/-- What the statistics of one group add. -/
def protocolValues (stats : Json) : Option (List (Text × ℚ)) :=
  match stats with
  | .obj fields => (fields.mapM protocolValue).map fun values => values.filterMap id
  | _ => some []

/-- `aggregate_protocol_composition`. -/
def aggregateProtocolComposition (groups : List Group) : Option (Dict Text ℚ) := do
  let values ← groups.mapM fun group => protocolValues group.stats
  return Dict.accumulate Prod.fst 0 (fun total value => total + value.2) values.flatten

/-! ## `analyze_mpm` -/

/-- What the analysis takes from the statistics of one group; `sizes` are the pairs of a size and
a count. -/
structure MpmReading where
  hasMpm : Bool
  patterns : ℚ
  sizes : List (ℚ × ℚ)
deriving DecidableEq

/-- The loop over the entries of `sizes`. -/
def readSizes : List Json → Option (List (ℚ × ℚ))
  | [] => some []
  | entry :: entries => do
    let sizeVal ← get "size" entry
    let countVal ← get "count" entry
    match sizeVal with
    | none | some .null => readSizes entries
    | some size =>
      let size ← number size
      let count ← number (countVal.getD (.num 0))
      let sizes ← readSizes entries
      return (size, count) :: sizes

/-- The count of patterns of `grp`, and its sizes. -/
def readPatterns (grp : Option Json) : Option (ℚ × List (ℚ × ℚ)) :=
  match grp with
  | some (.obj fields) => do
    let patterns ← number ((field "total".toList fields).getD (.num 0))
    match (field "sizes".toList fields).getD (.arr []) with
    | .arr entries =>
      let sizes ← readSizes entries
      return (patterns, sizes)
    | _ => return (patterns, [])
  | some (.num q) => some (q, [])
  | some (.bool b) => some (if b then 1 else 0, [])
  | _ => some (0, [])

/-- The body of the loop over the groups. -/
def readMpm (mpmGroup : Text) (stats : Json) : Option MpmReading :=
  match stats with
  | .obj fields => do
    let types := (field "types".toList fields).getD (.obj [])
    let mpm ← number ((← get "mpm" types).getD (.num 0))
    let grp := match (field "mpm".toList fields).getD (.obj []) with
      | .obj mpmObj => field mpmGroup mpmObj
      | _ => none
    let (patterns, sizes) ← readPatterns grp
    return ⟨0 < mpm, patterns, sizes⟩
  | _ => some ⟨false, 0, []⟩

/-- `length_stats`. -/
structure LengthStats where
  avgLength : ℚ
  medianLength : Option ℚ
  minLength : ℚ
  maxLength : ℚ
deriving DecidableEq

/-- `mpm_stats`. -/
structure MpmStats where
  totalSgh : ℕ
  mpmPresent : ℕ
  avgPatterns : ℚ
  medianPatterns : ℚ
  minPatterns : ℚ
  maxPatterns : ℚ
  patternCounts : List ℚ
  lengthStats : LengthStats
deriving DecidableEq

/-- `min(l)` of a list that is not empty. -/
def listMin : List ℚ → ℚ
  | [] => 0
  | x :: xs => xs.foldl min x

/-- `max(l)` of a list that is not empty. -/
def listMax : List ℚ → ℚ
  | [] => 0
  | x :: xs => xs.foldl max x

/-- The order of pairs. -/
def pairLE (a b : ℚ × ℚ) : Prop := a.1 < b.1 ∨ a.1 = b.1 ∧ a.2 ≤ b.2

instance (a b : ℚ × ℚ) : Decidable (pairLE a b) := inferInstanceAs (Decidable (_ ∨ _ ∧ _))

/-- The loop over `sorted_sizes` that looks for the median. -/
def medianScan (halfTotal : ℚ) : ℚ → List (ℚ × ℚ) → Option ℚ
  | _, [] => none
  | cumulative, (size, count) :: sortedSizes =>
    if halfTotal ≤ cumulative + count then some size
    else medianScan halfTotal (cumulative + count) sortedSizes

/-- `x / y`; a quotient that is too large raises an exception. -/
def quotient (x y : ℚ) : Option ℚ := Binary64.ofRat (x / y)

/-- The statistics of `length_dict`. -/
def lengthStats (lengthDict : Dict ℚ ℚ) : Option LengthStats :=
  if lengthDict.entries = [] then some ⟨0, some 0, 0, 0⟩
  else do
    let totalLengthCount := lengthDict.values.sum
    let totalLengthSum := (lengthDict.entries.map fun e => e.1 * e.2).sum
    let avgLength ←
      if 0 < totalLengthCount then quotient totalLengthSum totalLengthCount else some 0
    let halfTotal ← quotient totalLengthCount 2
    return {
      avgLength := avgLength
      medianLength := medianScan halfTotal 0 (lengthDict.entries.insertionSort pairLE)
      minLength := listMin lengthDict.keys
      maxLength := listMax lengthDict.keys }

/-- The middle one of sorted counts, or the mean of the two in the middle. -/
def medianCount (sortedCounts : List ℚ) : Option ℚ :=
  let n := sortedCounts.length
  if n % 2 = 1 then some (sortedCounts.getD (n / 2) 0)
  else quotient (sortedCounts.getD (n / 2 - 1) 0 + sortedCounts.getD (n / 2) 0) 2

/-- `length_dict`. -/
def lengthDict (readings : List MpmReading) : Dict ℚ ℚ :=
  Dict.accumulate Prod.fst 0 (fun total entry => total + entry.2)
    (readings.flatMap MpmReading.sizes)

/-- `avg_patterns`. -/
def avgPatterns (patternCounts : List ℚ) : Option ℚ :=
  if patternCounts = [] then some 0 else quotient patternCounts.sum patternCounts.length

/-- `median_patterns`. -/
def medianPatterns (patternCounts : List ℚ) : Option ℚ :=
  if patternCounts = [] then some 0 else medianCount (patternCounts.insertionSort (· ≤ ·))

/-- The statistics of what was read. -/
def mpmStats (readings : List MpmReading) : Option MpmStats := do
  let patternCounts := readings.map MpmReading.patterns
  let avgPatterns ← avgPatterns patternCounts
  let medianPatterns ← medianPatterns patternCounts
  let lengthStats ← lengthStats (lengthDict readings)
  return {
    totalSgh := readings.length
    mpmPresent := readings.countP MpmReading.hasMpm
    avgPatterns := avgPatterns
    medianPatterns := medianPatterns
    minPatterns := listMin patternCounts
    maxPatterns := listMax patternCounts
    patternCounts := patternCounts
    lengthStats := lengthStats }

/-- `analyze_mpm`. -/
def analyzeMpm (mpmGroup : Text) (groups : List Group) : Option MpmStats := do
  let readings ← groups.mapM fun group => readMpm mpmGroup group.stats
  mpmStats readings

/-! ## `analyze_levels` -/

/-- `levels`. -/
abbrev Levels := Dict Text (List Group)

/-- `levels[name] = extract_groups(data, name)`. -/
def addLevel (data : Json) (levels : Levels) (name : Text) : Option Levels := do
  let groups ← extractGroups data (some name)
  return levels.set name groups

/-- The body of the loop over the keys of the document. -/
def addLevels (data : Json) (levels : Levels) (entry : Text × Json) : Option Levels := do
  let levels ← addLevel data levels entry.1
  match entry.2 with
  | .obj subs => (subs.map Prod.fst).foldlM (fun levels sub =>
      addLevel data levels (entry.1 ++ '.' :: sub)) levels
  | _ => return levels

/-- The levels of a document. -/
def documentLevels (data : Json) (filterPath : Option Text) : Option Levels :=
  match filterPath with
  | none | some [] => do
    let groups ← extractGroups data none
    match data with
    | .obj fields => fields.foldlM (addLevels data) (Dict.empty.set "global".toList groups)
    | _ => none
  | some filterPath => addLevel data Dict.empty filterPath

/-- The loop that computes the metrics of the levels with groups. -/
def levelResults (log2 : ℚ → ℚ) (results : Dict Text Metrics) :
    List (Text × List Group) → Option (Dict Text Metrics)
  | [] => some results
  | (level, groups) :: levels =>
    if groups.isEmpty then levelResults log2 results levels
    else do
      let metrics ← computeMetrics log2 groups
      levelResults log2 (results.set level metrics) levels

/-- `analyze_levels`. -/
def analyzeLevels (log2 : ℚ → ℚ) (data : Json) (filterPath : Option Text) :
    Option (Levels × Dict Text Metrics) := do
  let levels ← documentLevels data filterPath
  let results ← levelResults log2 Dict.empty levels.entries
  return (levels, results)

end EtAnalysis
end PamoRxpBench
