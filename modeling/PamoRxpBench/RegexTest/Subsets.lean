import PamoRxpBench.Data.RuleSubsets
import PamoRxpBench.RegexTest.Worker

/-!
# `regex-test`: rule subsets

The number of rule subsets that `args_parse` derives from the ratio string, and the groups that
the packets of a run of `worker_rx_pkts` query.
-/

namespace PamoRxpBench
namespace RegexTest

/-! ## The ratio string -/

/-- A string argument as the program gets it: its bytes and the terminating `NUL`. -/
def cString (s : Text) : List UInt8 := s.flatMap String.utf8EncodeChar ++ [0]

/-- `for (; s[i]; s[i]==':' ? i++ : *s++); return i;`, where `s` is the number of times the
pointer was incremented. A read past the end of the string is `none`. -/
def subsetRatiosLoop (bytes : List UInt8) (s i : ℕ) : Option ℕ :=
  if h : s + i < bytes.length then
    if bytes[s + i] = 0 then some i
    else if bytes[s + i] = 58 then subsetRatiosLoop bytes s (i + 1)
    -- the byte that `*s++` reads is before the one just read
    else subsetRatiosLoop bytes (s + 1) i
  else none
termination_by bytes.length - (s + i)

/-- `args_parse_subset_ratios`. -/
def argsParseSubsetRatios (bytes : List UInt8) : Option ℕ := subsetRatiosLoop bytes 0 1

/-! ## The groups of a run -/

variable {M : Type} [DecidableEq M] {args : AppArgs}

/-- The groups of the ops that one iteration prepares, in order. -/
def preparedGroups (engine : Engine) (w : Worker args M) (t : Turn M) : List ℕ :=
  if engine = .regex then
    ((prepareOps args w.ops t.rx w.group0Selector).1.take t.rx.length).map RegexOp.groupId0
  else []

/-- The groups of the ops that a run prepares. A run that panics prepared the ops of its last
iteration. -/
def runGroups (ticksPerUs : UInt64) (engine : Engine) : Worker args M → List (Turn M) → List ℕ
  | _, [] => []
  | w, t :: ts =>
    preparedGroups engine w t ++
      match w.iteration ticksPerUs engine t with
      | none => []
      | some w => runGroups ticksPerUs engine w ts

end RegexTest
end PamoRxpBench
