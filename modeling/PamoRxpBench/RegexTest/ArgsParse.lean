import PamoRxpBench.RegexTest.Subsets

/-!
# `regex-test`: the command line

`args_parse` with the table `lgopts` that it hands to `getopt_long`, the defaults of `g_app_args`
and the `switch` that stores the arguments. `ArgvOption` is one option of `argv` as
`getopt_long` delimits it; the bits that Hyperscan and DPDK define are `Constants`.
-/

namespace PamoRxpBench
namespace RegexTest

/-! ## The arguments -/

/-- The bits of `hs.h` and `rte_regexdev.h` that the program uses. -/
structure Constants where
  hsFlagCaseless : UInt32
  hsFlagDotall : UInt32
  hsFlagMultiline : UInt32
  hsFlagSinglematch : UInt32
  hsFlagAllowempty : UInt32
  hsFlagUtf8 : UInt32
  hsFlagUcp : UInt32
  hsFlagPrefilter : UInt32
  hsFlagSomLeftmost : UInt32
  hsFlagCombination : UInt32
  hsFlagQuiet : UInt32
  stopOnMatchF : UInt32
  matchHighPriorityF : UInt32

/-- `struct app_args`. A path is the bytes of its array before the first `NUL`. -/
structure GAppArgs where
  help : Bool
  explibOut : Bool
  hsEnabled : Bool
  hsRulesPath : List UInt8
  hsFlags : UInt32
  rgxEnabled : Bool
  rgxNumOfMatchMode : UInt32
  rgxRulesPath : List UInt8
  rgxDescriptors : UInt32
  rgxStatsHistogramBucketSize : UInt32
  rgxStatsHistogramBucketCnt : UInt32
  rgxSubsetCnt : UInt32
  portMtu : UInt32
  portMpSize : UInt32
  portMpCacheSize : UInt32
  portRxDescriptors : UInt32
  portTxDescriptors : UInt32
  portBurstSize : UInt32
  forwardingMode : UInt32
deriving DecidableEq

/-- `HS_EXPRESSION_FLAGS`. -/
def hsExpressionFlags (c : Constants) : UInt32 :=
  c.hsFlagPrefilter ||| c.hsFlagDotall ||| c.hsFlagSinglematch

/-- `g_app_args` as the program starts with it. -/
def GAppArgs.initial (c : Constants) : GAppArgs where
  help := false
  explibOut := true
  hsEnabled := false
  hsRulesPath := "/tmp/regex-test/rules.hs".toList.flatMap String.utf8EncodeChar
  hsFlags := hsExpressionFlags c
  rgxEnabled := true
  rgxNumOfMatchMode := c.stopOnMatchF
  rgxRulesPath := "/tmp/regex-test/rules.rof2.binary".toList.flatMap String.utf8EncodeChar
  rgxDescriptors := 256
  rgxStatsHistogramBucketSize := 4
  rgxStatsHistogramBucketCnt := 0
  rgxSubsetCnt := 1
  portMtu := 1500
  portMpSize := 2047
  portMpCacheSize := 511
  portRxDescriptors := 256
  portTxDescriptors := 256
  portBurstSize := 64
  forwardingMode := 0

/-- The part of the arguments that the worker and the final report read. -/
def GAppArgs.forWorker (g : GAppArgs) : AppArgs where
  explibOut := g.explibOut
  hsEnabled := g.hsEnabled
  rgxEnabled := g.rgxEnabled
  rgxNumOfMatchMode := g.rgxNumOfMatchMode.toNat
  rgxStatsHistogramBucketSize := g.rgxStatsHistogramBucketSize.toNat
  rgxSubsetCnt := g.rgxSubsetCnt.toNat
  portBurstSize := g.portBurstSize.toNat
  forwardingMode := g.forwardingMode.toNat

-- both have the defaults of `g_app_args`
example (c : Constants) : (GAppArgs.initial c).forWorker = gAppArgs c.stopOnMatchF.toNat := rfl

/-! ## `getopt_long` -/

/-- `enum app_args_enum`. -/
inductive AppArgsEnum
  | help
  | explibOutputDisabled
  | hsEnabled
  | hsRulesPath
  | hsFlagCaseless
  | hsFlagDotall
  | hsFlagMultiline
  | hsFlagSinglematch
  | hsFlagAllowempty
  | hsFlagUtf8
  | hsFlagUcp
  | hsFlagPrefilter
  | hsFlagSomLeftmost
  | hsFlagCombination
  | hsFlagQuiet
  | rgxEnabled
  | rgxNumOfMatchMode
  | rgxRulesPath
  | rgxDescriptors
  | rgxStatsHistogramBucketSize
  | rgxRuleSubsetRatio
  | portMtu
  | portMpSize
  | portMpCacheSize
  | portRxDescriptors
  | portTxDescriptors
  | portBurstSize
  | forwardingMode
  | forceFullRgxDq
deriving DecidableEq, Repr

/-- The names in `lgopts`. -/
inductive OptName
  | help
  | explibDisabled
  | hsEnabled
  | hsRulesPath
  | hsFlagCaseless
  | hsFlagDotall
  | hsFlagMultiline
  | hsFlagSinglematch
  | hsFlagAllowempty
  | hsFlagUtf8
  | hsFlagUcp
  | hsFlagPrefilter
  | hsFlagSomLeftmost
  | hsFlagCombination
  | hsFlagQuiet
  | rgxEnabled
  | rgxNumOfMatchMode
  | rgxRulesPath
  | rgxDescriptors
  | rgxStatsHistogramBucketSize
  | rgxRuleSubsetRatio
  | portMtu
  | portMpSize
  | portMpCacheSize
  | portRxDescriptors
  | portTxDescriptors
  | portBurstSize
  | forwardingMode
deriving DecidableEq, Repr

/-- The field `has_arg` of a row. -/
inductive HasArg
  | noArgument
  | requiredArgument
deriving DecidableEq, Repr

/-- A row of `lgopts`; its `flag` is `0`, so `getopt_long` returns `val`. -/
structure OptRow where
  name : OptName
  hasArg : HasArg
  val : AppArgsEnum

/-- `lgopts`. -/
def lgopts : List OptRow :=
  [⟨.help, .noArgument, .help⟩,
   -- the enumeration has `ARG_EXPLIB_OUTPUT_DISABLED` for it
   ⟨.explibDisabled, .noArgument, .help⟩,
   ⟨.hsEnabled, .requiredArgument, .hsEnabled⟩,
   ⟨.hsRulesPath, .requiredArgument, .hsRulesPath⟩,
   ⟨.hsFlagCaseless, .noArgument, .hsFlagCaseless⟩,
   ⟨.hsFlagDotall, .noArgument, .hsFlagDotall⟩,
   ⟨.hsFlagMultiline, .noArgument, .hsFlagMultiline⟩,
   ⟨.hsFlagSinglematch, .noArgument, .hsFlagSinglematch⟩,
   ⟨.hsFlagAllowempty, .noArgument, .hsFlagAllowempty⟩,
   ⟨.hsFlagUtf8, .noArgument, .hsFlagUtf8⟩,
   ⟨.hsFlagUcp, .noArgument, .hsFlagUcp⟩,
   ⟨.hsFlagPrefilter, .noArgument, .hsFlagPrefilter⟩,
   ⟨.hsFlagSomLeftmost, .noArgument, .hsFlagSomLeftmost⟩,
   ⟨.hsFlagCombination, .noArgument, .hsFlagCombination⟩,
   ⟨.hsFlagQuiet, .noArgument, .hsFlagQuiet⟩,
   ⟨.rgxEnabled, .requiredArgument, .rgxEnabled⟩,
   ⟨.rgxNumOfMatchMode, .requiredArgument, .rgxNumOfMatchMode⟩,
   ⟨.rgxRulesPath, .requiredArgument, .rgxRulesPath⟩,
   ⟨.rgxDescriptors, .requiredArgument, .rgxDescriptors⟩,
   ⟨.rgxStatsHistogramBucketSize, .requiredArgument, .rgxStatsHistogramBucketSize⟩,
   ⟨.rgxRuleSubsetRatio, .requiredArgument, .rgxRuleSubsetRatio⟩,
   ⟨.portMtu, .requiredArgument, .portMtu⟩,
   ⟨.portMpSize, .requiredArgument, .portMpSize⟩,
   ⟨.portMpCacheSize, .requiredArgument, .portMpCacheSize⟩,
   ⟨.portRxDescriptors, .requiredArgument, .portRxDescriptors⟩,
   ⟨.portTxDescriptors, .requiredArgument, .portTxDescriptors⟩,
   ⟨.portBurstSize, .requiredArgument, .portBurstSize⟩,
   ⟨.forwardingMode, .requiredArgument, .forwardingMode⟩]

/-- A `char *`: the bytes before the terminating `NUL`. -/
structure CString where
  bytes : List UInt8
  not_mem_nul : 0 ∉ bytes

/-- An option with a name of the table, and its argument. -/
structure LongOption where
  name : OptName
  optarg : Option CString

/-- One option of `argv`. -/
inductive ArgvOption
  | known (o : LongOption)
  | unrecognized

/-- What `getopt_long` returns and stores in `optarg`; `none` is `'?'`. -/
def getoptLong : ArgvOption → Option (AppArgsEnum × Option CString)
  | .unrecognized => none
  | .known o =>
    (lgopts.find? fun row => row.name == o.name).bind fun row =>
      if (row.hasArg == .requiredArgument) == o.optarg.isSome then some (row.val, o.optarg)
      else none

/-! ## The arguments of an option -/

inductive ExitStatus
  | success
  | failure
deriving DecidableEq, Repr

/-- How `args_parse` ends when it does not return: it logs the usage, after an error message if
there is one, and exits; or its behaviour is undefined. -/
inductive Stop
  | usage (error : Option String) (status : ExitStatus)
  | undefined
deriving DecidableEq, Repr

/-- `isspace`. -/
def isspace (b : UInt8) : Bool := b == 32 || (9 ≤ b && b ≤ 13)

/-- The number that the digits at the beginning write, after the digits of `acc`. -/
def leadingDigits : ℕ → List UInt8 → ℕ
  | acc, [] => acc
  | acc, b :: bs => if 48 ≤ b && b ≤ 57 then leadingDigits (10 * acc + (b.toNat - 48)) bs else acc

/-- The number at the beginning of the bytes, with its sign. -/
def signedDigits : List UInt8 → ℤ
  | [] => 0
  | b :: bs =>
    if b = 45 then -(leadingDigits 0 bs : ℤ)
    else if b = 43 then leadingDigits 0 bs
    else leadingDigits 0 (b :: bs)

/-- `atoi`. It is not defined on a number that no `int` has. -/
def atoi (s : CString) : Option ℤ :=
  let n := signedDigits (s.bytes.dropWhile isspace)
  if -2 ^ 31 ≤ n ∧ n < 2 ^ 31 then some n else none

/-- `atoi(optarg)`. -/
def atoiArg (optarg : Option CString) : Except Stop ℤ :=
  match optarg.bind atoi with
  | some n => .ok n
  | none => .error .undefined

/-- A path after `strncpy(path, optarg, sizeof(path) - 1)` and the assignment of the last
byte. -/
def strncpyArg (optarg : Option CString) : Except Stop (List UInt8) :=
  match optarg with
  | some s => .ok (s.bytes.take 255)
  | none => .error .undefined

/-- `args_parse_subset_ratios(optarg)`. -/
def subsetRatiosArg (optarg : Option CString) : Except Stop UInt32 :=
  match optarg.bind fun s => argsParseSubsetRatios (s.bytes ++ [0]) with
  | some i => .ok (UInt32.ofNat i)
  | none => .error .undefined

/-! ## `args_parse` -/

/-- The condition on `opt` for the reset of `hs_flags`. -/
def AppArgsEnum.isHsFlag : AppArgsEnum → Bool
  | .hsFlagCaseless | .hsFlagDotall | .hsFlagMultiline | .hsFlagSinglematch
  | .hsFlagAllowempty | .hsFlagUtf8 | .hsFlagUcp | .hsFlagPrefilter
  | .hsFlagSomLeftmost | .hsFlagCombination | .hsFlagQuiet => true
  | _ => false

/-- `case ARG_RGX_NUM_OF_MATCH_MODE`. The field is unsigned, so its check for a negative number
never holds. -/
def parseMatchMode (c : Constants) (optarg : Option CString) : Except Stop UInt32 := do
  let n ← atoiArg optarg
  let mode := UInt32.ofInt n
  if mode > 2 then
    .error (.usage (some "Invalid value for rgx_num_of_match_mode\n") .failure)
  else if mode = 1 then .ok c.stopOnMatchF
  else if mode = 2 then .ok c.matchHighPriorityF
  else .ok mode

/-- The `switch` of `args_parse`. -/
def switchOpt (c : Constants) (g : GAppArgs) (opt : AppArgsEnum) (optarg : Option CString) :
    Except Stop GAppArgs :=
  match opt with
  | .help => .ok { g with help := true }
  | .explibOutputDisabled => .ok { g with explibOut := false }
  | .hsEnabled => do
    let n ← atoiArg optarg
    .ok { g with hsEnabled := n != 0 }
  | .hsRulesPath => do
    let path ← strncpyArg optarg
    .ok { g with hsRulesPath := path }
  | .hsFlagCaseless => .ok { g with hsFlags := g.hsFlags ||| c.hsFlagCaseless }
  | .hsFlagDotall => .ok { g with hsFlags := g.hsFlags ||| c.hsFlagDotall }
  | .hsFlagMultiline => .ok { g with hsFlags := g.hsFlags ||| c.hsFlagMultiline }
  | .hsFlagSinglematch => .ok { g with hsFlags := g.hsFlags ||| c.hsFlagSinglematch }
  | .hsFlagAllowempty => .ok { g with hsFlags := g.hsFlags ||| c.hsFlagAllowempty }
  | .hsFlagUtf8 => .ok { g with hsFlags := g.hsFlags ||| c.hsFlagUtf8 }
  | .hsFlagUcp => .ok { g with hsFlags := g.hsFlags ||| c.hsFlagUcp }
  | .hsFlagPrefilter => .ok { g with hsFlags := g.hsFlags ||| c.hsFlagPrefilter }
  | .hsFlagSomLeftmost => .ok { g with hsFlags := g.hsFlags ||| c.hsFlagSomLeftmost }
  | .hsFlagCombination => .ok { g with hsFlags := g.hsFlags ||| c.hsFlagCombination }
  | .hsFlagQuiet => .ok { g with hsFlags := g.hsFlags ||| c.hsFlagQuiet }
  | .rgxEnabled => do
    let n ← atoiArg optarg
    .ok { g with rgxEnabled := n != 0 }
  | .rgxNumOfMatchMode => do
    let mode ← parseMatchMode c optarg
    .ok { g with rgxNumOfMatchMode := mode }
  | .rgxRulesPath => do
    let path ← strncpyArg optarg
    .ok { g with rgxRulesPath := path }
  | .rgxDescriptors => do
    let n ← atoiArg optarg
    .ok { g with rgxDescriptors := UInt32.ofInt n }
  | .rgxStatsHistogramBucketSize => do
    let n ← atoiArg optarg
    .ok { g with rgxStatsHistogramBucketSize := UInt32.ofInt n }
  | .rgxRuleSubsetRatio => do
    let cnt ← subsetRatiosArg optarg
    .ok { g with rgxSubsetCnt := cnt }
  | .portMtu => do
    let n ← atoiArg optarg
    .ok { g with portMtu := UInt32.ofInt n }
  | .portMpSize => do
    let n ← atoiArg optarg
    .ok { g with portMpSize := UInt32.ofInt n }
  | .portMpCacheSize => do
    let n ← atoiArg optarg
    .ok { g with portMpCacheSize := UInt32.ofInt n }
  | .portRxDescriptors => do
    let n ← atoiArg optarg
    .ok { g with portRxDescriptors := UInt32.ofInt n }
  | .portTxDescriptors => do
    let n ← atoiArg optarg
    .ok { g with portTxDescriptors := UInt32.ofInt n }
  | .portBurstSize => do
    let n ← atoiArg optarg
    .ok { g with portBurstSize := UInt32.ofInt n }
  | .forwardingMode => do
    let n ← atoiArg optarg
    .ok { g with forwardingMode := UInt32.ofInt n }
  | .forceFullRgxDq => .error (.usage none .failure)

/-- `g_app_args` and `hs_flag_specified`. -/
structure ParseState where
  args : GAppArgs
  hsFlagSpecified : Bool

/-- The first flag of Hyperscan resets `hs_flags`. -/
def ParseState.resetFlags (s : ParseState) (opt : AppArgsEnum) : ParseState :=
  if !s.hsFlagSpecified && opt.isHsFlag then
    { args := { s.args with hsFlags := 0 }, hsFlagSpecified := true }
  else s

/-- The body of the loop of `args_parse`. -/
def parseOption (c : Constants) (s : ParseState) (a : ArgvOption) : Except Stop ParseState :=
  match getoptLong a with
  | none => .error (.usage none .failure)
  | some (opt, optarg) => do
    let s := s.resetFlags opt
    let g ← switchOpt c s.args opt optarg
    .ok { s with args := g }

/-- What `args_parse` does behind the loop. A division by zero is undefined. -/
def finishArgs (g : GAppArgs) : Except Stop GAppArgs :=
  if g.help then .error (.usage none .success)
  else if g.rgxStatsHistogramBucketSize = 0 then .error .undefined
  else .ok { g with
    rgxStatsHistogramBucketCnt := g.portBurstSize / g.rgxStatsHistogramBucketSize }

/-- `args_parse`. -/
def argsParse (c : Constants) (argv : List ArgvOption) : Except Stop GAppArgs := do
  let s ← argv.foldlM (parseOption c) ⟨.initial c, false⟩
  finishArgs s.args

end RegexTest
end PamoRxpBench
