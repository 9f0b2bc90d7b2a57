import PamoRxpBench.Library.Layout
import PamoRxpBench.RegexTest.ArgsParse
import PamoRxpBench.RegexTest.SubsetsTheorems

/-!
# The command line, field by field

Every option writes one field of `g_app_args` (`parseOption_eq_assign`), so the loop of
`args_parse` is a list of assignments to the fields of a record (`argsLayout`), and the library of
`Layout` says what each field holds at the end. `lastEffects` is what the options mean: the last
argument of each option, all flags of Hyperscan together. `args_parse` computes it, and does not
depend on the order of options of different fields, exactly on the command lines without
`--explib_disabled`, whose row of `lgopts` has the value of `--help`, and without a last
`--rgx_stats_histogram_bucket_size` of zero (`argsParse_fieldLocal_iff`).
-/

namespace PamoRxpBench
namespace RegexTest

/-! ## What the options mean -/

/-- The fields of `struct app_args`. -/
inductive ArgField
  | help
  | explibOut
  | hsEnabled
  | hsRulesPath
  | hsFlags
  | rgxEnabled
  | rgxNumOfMatchMode
  | rgxRulesPath
  | rgxDescriptors
  | rgxStatsHistogramBucketSize
  | rgxStatsHistogramBucketCnt
  | rgxSubsetCnt
  | portMtu
  | portMpSize
  | portMpCacheSize
  | portRxDescriptors
  | portTxDescriptors
  | portBurstSize
  | forwardingMode
deriving DecidableEq, Repr

/-- The field that an option is for. -/
def OptName.field : OptName → ArgField
  | .help => .help
  | .explibDisabled => .explibOut
  | .hsEnabled => .hsEnabled
  | .hsRulesPath => .hsRulesPath
  | .hsFlagCaseless | .hsFlagDotall | .hsFlagMultiline | .hsFlagSinglematch
  | .hsFlagAllowempty | .hsFlagUtf8 | .hsFlagUcp | .hsFlagPrefilter
  | .hsFlagSomLeftmost | .hsFlagCombination | .hsFlagQuiet => .hsFlags
  | .rgxEnabled => .rgxEnabled
  | .rgxNumOfMatchMode => .rgxNumOfMatchMode
  | .rgxRulesPath => .rgxRulesPath
  | .rgxDescriptors => .rgxDescriptors
  | .rgxStatsHistogramBucketSize => .rgxStatsHistogramBucketSize
  | .rgxRuleSubsetRatio => .rgxSubsetCnt
  | .portMtu => .portMtu
  | .portMpSize => .portMpSize
  | .portMpCacheSize => .portMpCacheSize
  | .portRxDescriptors => .portRxDescriptors
  | .portTxDescriptors => .portTxDescriptors
  | .portBurstSize => .portBurstSize
  | .forwardingMode => .forwardingMode

/-- The bit of a flag of Hyperscan. -/
def OptName.hsFlag (c : Constants) : OptName → UInt32
  | .hsFlagCaseless => c.hsFlagCaseless
  | .hsFlagDotall => c.hsFlagDotall
  | .hsFlagMultiline => c.hsFlagMultiline
  | .hsFlagSinglematch => c.hsFlagSinglematch
  | .hsFlagAllowempty => c.hsFlagAllowempty
  | .hsFlagUtf8 => c.hsFlagUtf8
  | .hsFlagUcp => c.hsFlagUcp
  | .hsFlagPrefilter => c.hsFlagPrefilter
  | .hsFlagSomLeftmost => c.hsFlagSomLeftmost
  | .hsFlagCombination => c.hsFlagCombination
  | .hsFlagQuiet => c.hsFlagQuiet
  | _ => 0

/-- The kinds of arguments. -/
inductive ArgKind
  | nothing
  | path
  | ratio
  | matchMode
  | number

def OptName.kind : OptName → ArgKind
  | .hsRulesPath | .rgxRulesPath => .path
  | .rgxRuleSubsetRatio => .ratio
  | .rgxNumOfMatchMode => .matchMode
  | .hsEnabled | .rgxEnabled | .rgxDescriptors | .rgxStatsHistogramBucketSize | .portMtu
  | .portMpSize | .portMpCacheSize | .portRxDescriptors | .portTxDescriptors | .portBurstSize
  | .forwardingMode => .number
  | _ => .nothing

/-- A number is one that an `int` has, a mode one of the three modes, and a list of ratios is not
empty. -/
def ArgKind.Accepts : ArgKind → Option CString → Prop
  | .nothing, optarg => optarg = none
  | .path, optarg => ∃ s, optarg = some s
  | .ratio, optarg => ∃ s, optarg = some s ∧ s.bytes ≠ []
  | .matchMode, optarg => ∃ s n, optarg = some s ∧ atoi s = some n ∧ 0 ≤ n ∧ n ≤ 2
  | .number, optarg => ∃ s n, optarg = some s ∧ atoi s = some n

/-- An option other than `--help`, with an argument of its kind. -/
structure LongOption.WellFormed (o : LongOption) : Prop where
  not_help : o.name ≠ .help
  accepts : o.name.kind.Accepts o.optarg

namespace LongOption

/-- The argument as a number. -/
def number (o : LongOption) : ℤ := (o.optarg.bind atoi).getD 0

/-- The argument as a path of at most 255 bytes. -/
def path (o : LongOption) : List UInt8 := (o.optarg.map fun s => s.bytes.take 255).getD []

/-- The number of ratios in the argument. -/
def ratios (o : LongOption) : ℕ :=
  (o.optarg.bind fun s => argsParseSubsetRatios (s.bytes ++ [0])).getD 0

/-- The match mode that the argument stands for. -/
def matchMode (c : Constants) (o : LongOption) : UInt32 :=
  if o.number = 1 then c.stopOnMatchF else if o.number = 2 then c.matchHighPriorityF else 0

end LongOption

/-- The options of a field, in their order. -/
def byField (f : ArgField) (opts : List LongOption) : List LongOption :=
  opts.filter fun o => o.name.field = f

/-- The effect of the last option of a field, and the default without one. -/
def lastEffect {A : Type} (f : ArgField) (effect : LongOption → A) (dflt : A)
    (opts : List LongOption) : A :=
  ((byField f opts).getLast?.map effect).getD dflt

/-- All flags of Hyperscan that are given, and the default without any. -/
def givenFlags (c : Constants) (dflt : UInt32) (opts : List LongOption) : UInt32 :=
  if (byField .hsFlags opts).isEmpty then dflt
  else (byField .hsFlags opts).foldl (fun flags o => flags ||| o.name.hsFlag c) 0

/-- Each field at the effect of its own options. -/
def lastEffects (c : Constants) (opts : List LongOption) : GAppArgs :=
  let dflt := GAppArgs.initial c
  let number (f : ArgField) (dflt : UInt32) : UInt32 :=
    lastEffect f (fun o => UInt32.ofInt o.number) dflt opts
  let bucketSize := number .rgxStatsHistogramBucketSize dflt.rgxStatsHistogramBucketSize
  let burstSize := number .portBurstSize dflt.portBurstSize
  { help := false
    explibOut := !opts.any fun o => o.name == .explibDisabled
    hsEnabled := lastEffect .hsEnabled (fun o => o.number != 0) dflt.hsEnabled opts
    hsRulesPath := lastEffect .hsRulesPath LongOption.path dflt.hsRulesPath opts
    hsFlags := givenFlags c dflt.hsFlags opts
    rgxEnabled := lastEffect .rgxEnabled (fun o => o.number != 0) dflt.rgxEnabled opts
    rgxNumOfMatchMode :=
      lastEffect .rgxNumOfMatchMode (LongOption.matchMode c) dflt.rgxNumOfMatchMode opts
    rgxRulesPath := lastEffect .rgxRulesPath LongOption.path dflt.rgxRulesPath opts
    rgxDescriptors := number .rgxDescriptors dflt.rgxDescriptors
    rgxStatsHistogramBucketSize := bucketSize
    rgxStatsHistogramBucketCnt := burstSize / bucketSize
    rgxSubsetCnt := lastEffect .rgxSubsetCnt (fun o => UInt32.ofNat o.ratios) dflt.rgxSubsetCnt opts
    portMtu := number .portMtu dflt.portMtu
    portMpSize := number .portMpSize dflt.portMpSize
    portMpCacheSize := number .portMpCacheSize dflt.portMpCacheSize
    portRxDescriptors := number .portRxDescriptors dflt.portRxDescriptors
    portTxDescriptors := number .portTxDescriptors dflt.portTxDescriptors
    portBurstSize := burstSize
    forwardingMode := number .forwardingMode dflt.forwardingMode }

/-- Two command lines that differ only in the order of options of different fields. -/
def SameByField (opts opts' : List LongOption) : Prop := ∀ f, byField f opts' = byField f opts

/-- `args_parse` leaves each field at the effect of its own options, whatever their order is. -/
structure FieldLocal (c : Constants) (opts : List LongOption) : Prop where
  effects : argsParse c (opts.map .known) = .ok (lastEffects c opts)
  order : ∀ opts', SameByField opts opts' →
    argsParse c (opts'.map .known) = argsParse c (opts.map .known)

/-! ## The fields of the record -/

/-- The values of a field. The flags of Hyperscan come with `hs_flag_specified`. -/
@[reducible] def ArgField.Value : ArgField → Type
  | .help | .explibOut | .hsEnabled | .rgxEnabled => Bool
  | .hsRulesPath | .rgxRulesPath => List UInt8
  | .hsFlags => UInt32 × Bool
  | _ => UInt32

namespace ParseState

def get (s : ParseState) : (f : ArgField) → f.Value
  | .help => s.args.help
  | .explibOut => s.args.explibOut
  | .hsEnabled => s.args.hsEnabled
  | .hsRulesPath => s.args.hsRulesPath
  | .hsFlags => (s.args.hsFlags, s.hsFlagSpecified)
  | .rgxEnabled => s.args.rgxEnabled
  | .rgxNumOfMatchMode => s.args.rgxNumOfMatchMode
  | .rgxRulesPath => s.args.rgxRulesPath
  | .rgxDescriptors => s.args.rgxDescriptors
  | .rgxStatsHistogramBucketSize => s.args.rgxStatsHistogramBucketSize
  | .rgxStatsHistogramBucketCnt => s.args.rgxStatsHistogramBucketCnt
  | .rgxSubsetCnt => s.args.rgxSubsetCnt
  | .portMtu => s.args.portMtu
  | .portMpSize => s.args.portMpSize
  | .portMpCacheSize => s.args.portMpCacheSize
  | .portRxDescriptors => s.args.portRxDescriptors
  | .portTxDescriptors => s.args.portTxDescriptors
  | .portBurstSize => s.args.portBurstSize
  | .forwardingMode => s.args.forwardingMode

def set (s : ParseState) : (f : ArgField) → f.Value → ParseState
  | .help, v => { s with args := { s.args with help := v } }
  | .explibOut, v => { s with args := { s.args with explibOut := v } }
  | .hsEnabled, v => { s with args := { s.args with hsEnabled := v } }
  | .hsRulesPath, v => { s with args := { s.args with hsRulesPath := v } }
  | .hsFlags, v => ⟨{ s.args with hsFlags := v.1 }, v.2⟩
  | .rgxEnabled, v => { s with args := { s.args with rgxEnabled := v } }
  | .rgxNumOfMatchMode, v => { s with args := { s.args with rgxNumOfMatchMode := v } }
  | .rgxRulesPath, v => { s with args := { s.args with rgxRulesPath := v } }
  | .rgxDescriptors, v => { s with args := { s.args with rgxDescriptors := v } }
  | .rgxStatsHistogramBucketSize, v =>
    { s with args := { s.args with rgxStatsHistogramBucketSize := v } }
  | .rgxStatsHistogramBucketCnt, v =>
    { s with args := { s.args with rgxStatsHistogramBucketCnt := v } }
  | .rgxSubsetCnt, v => { s with args := { s.args with rgxSubsetCnt := v } }
  | .portMtu, v => { s with args := { s.args with portMtu := v } }
  | .portMpSize, v => { s with args := { s.args with portMpSize := v } }
  | .portMpCacheSize, v => { s with args := { s.args with portMpCacheSize := v } }
  | .portRxDescriptors, v => { s with args := { s.args with portRxDescriptors := v } }
  | .portTxDescriptors, v => { s with args := { s.args with portTxDescriptors := v } }
  | .portBurstSize, v => { s with args := { s.args with portBurstSize := v } }
  | .forwardingMode, v => { s with args := { s.args with forwardingMode := v } }

theorem get_set_self (s : ParseState) (f : ArgField) (v : f.Value) : (s.set f v).get f = v := by
  cases f <;> rfl

theorem get_set_ne (s : ParseState) {f g : ArgField} (v : f.Value) (h : f ≠ g) :
    (s.set f v).get g = s.get g := by
  cases f <;> cases g <;> first | rfl | exact absurd rfl h

/-- The fields tell two states apart. -/
theorem ext_get (s t : ParseState) (h : ∀ f, s.get f = t.get f) : s = t := by
  rcases s with ⟨⟨⟩, _⟩
  rcases t with ⟨⟨⟩, _⟩
  have hflags := Prod.mk.inj (h .hsFlags)
  congr 1
  · congr 1
    exacts [h .help, h .explibOut, h .hsEnabled, h .hsRulesPath, hflags.1, h .rgxEnabled,
      h .rgxNumOfMatchMode, h .rgxRulesPath, h .rgxDescriptors, h .rgxStatsHistogramBucketSize,
      h .rgxStatsHistogramBucketCnt, h .rgxSubsetCnt, h .portMtu, h .portMpSize,
      h .portMpCacheSize, h .portRxDescriptors, h .portTxDescriptors, h .portBurstSize,
      h .forwardingMode]
  · exact hflags.2

end ParseState

/-- `g_app_args` as a record of independent fields. -/
def argsLayout : Layout ParseState ArgField ArgField.Value where
  get := ParseState.get
  set := ParseState.set
  get_set_self := ParseState.get_set_self
  get_set_ne := ParseState.get_set_ne
  ext := ParseState.ext_get

/-! ## What one option does -/

/-- The field that the `switch` writes for an option: the row of `--explib_disabled` leads to the
case of `--help`. -/
def OptName.written (n : OptName) : ArgField := if n = .explibDisabled then .help else n.field

/-- The new value of a field, from the old one. -/
def ArgField.effect (c : Constants) : (f : ArgField) → LongOption → f.Value → f.Value
  | .help, _, _ => true
  | .explibOut, _, _ => false
  | .hsEnabled, o, _ => o.number != 0
  | .hsRulesPath, o, _ => o.path
  | .hsFlags, o, v => ((if v.2 then v.1 else 0) ||| o.name.hsFlag c, true)
  | .rgxEnabled, o, _ => o.number != 0
  | .rgxNumOfMatchMode, o, _ => o.matchMode c
  | .rgxRulesPath, o, _ => o.path
  | .rgxStatsHistogramBucketCnt, _, v => v
  | .rgxSubsetCnt, o, _ => UInt32.ofNat o.ratios
  | .rgxDescriptors, o, _ => UInt32.ofInt o.number
  | .rgxStatsHistogramBucketSize, o, _ => UInt32.ofInt o.number
  | .portMtu, o, _ => UInt32.ofInt o.number
  | .portMpSize, o, _ => UInt32.ofInt o.number
  | .portMpCacheSize, o, _ => UInt32.ofInt o.number
  | .portRxDescriptors, o, _ => UInt32.ofInt o.number
  | .portTxDescriptors, o, _ => UInt32.ofInt o.number
  | .portBurstSize, o, _ => UInt32.ofInt o.number
  | .forwardingMode, o, _ => UInt32.ofInt o.number

theorem atoiArg_number {o : LongOption} (h : ArgKind.number.Accepts o.optarg) :
    atoiArg o.optarg = .ok o.number := by
  obtain ⟨s, n, hs, hn⟩ := h
  unfold atoiArg LongOption.number
  rw [hs, Option.bind_some, hn]
  rfl

theorem strncpyArg_path {o : LongOption} (h : ArgKind.path.Accepts o.optarg) :
    strncpyArg o.optarg = .ok o.path := by
  obtain ⟨s, hs⟩ := h
  unfold strncpyArg LongOption.path
  rw [hs]
  rfl

/-- The loop over the ratios stays in the string when it is not empty. -/
theorem argsParseSubsetRatios_isSome {s : CString} (h : s.bytes ≠ []) :
    ∃ i, argsParseSubsetRatios (s.bytes ++ [0]) = some i := by
  cases hbytes : s.bytes with
  | nil => exact absurd hbytes h
  | cons b bs =>
    have hrest : 0 ∉ bs := fun hmem => s.not_mem_nul (hbytes ▸ List.mem_cons_of_mem _ hmem)
    have hloop : subsetRatiosLoop (b :: bs ++ [0]) 0 1 = some (1 + bs.count 58) :=
      subsetRatiosLoop_spec (show b :: bs ++ [0] = [b] ++ bs ++ [0] from rfl) rfl hrest
    exact ⟨_, hloop⟩

theorem subsetRatiosArg_ratios {o : LongOption} (h : ArgKind.ratio.Accepts o.optarg) :
    subsetRatiosArg o.optarg = .ok (UInt32.ofNat o.ratios) := by
  obtain ⟨s, hs, hne⟩ := h
  obtain ⟨i, hi⟩ := argsParseSubsetRatios_isSome hne
  unfold subsetRatiosArg LongOption.ratios
  rw [hs, Option.bind_some, hi]
  rfl

/-- An accepted match mode is the one that is written. -/
theorem parseMatchMode_matchMode {c : Constants} {o : LongOption}
    (h : ArgKind.matchMode.Accepts o.optarg) :
    parseMatchMode c o.optarg = .ok (o.matchMode c) := by
  obtain ⟨s, n, hs, hn, hnonneg, hle⟩ := h
  have hnumber : o.number = n := by
    unfold LongOption.number
    rw [hs, Option.bind_some, hn]
    rfl
  have harg : atoiArg o.optarg = .ok n := hnumber ▸ atoiArg_number ⟨s, n, hs, hn⟩
  unfold parseMatchMode LongOption.matchMode
  rw [harg, hnumber]
  have hcases : n = 0 ∨ n = 1 ∨ n = 2 := by omega
  rcases hcases with rfl | rfl | rfl <;> rfl

theorem bind_of_eq_ok {A B : Type} {x : Except Stop A} {a : A} (h : x = .ok a)
    (f : A → Except Stop B) : (x >>= f) = f a := by
  rw [h]
  rfl

/-- An option that is no flag of Hyperscan does what its case of the `switch` does. -/
theorem parseOption_of_switch {c : Constants} {s : ParseState} {a : ArgvOption}
    {opt : AppArgsEnum} {optarg : Option CString} {g : GAppArgs}
    (hgetopt : getoptLong a = some (opt, optarg)) (hflag : opt.isHsFlag = false)
    (hswitch : switchOpt c s.args opt optarg = .ok g) :
    parseOption c s a = .ok { s with args := g } := by
  have hreset : s.resetFlags opt = s := by
    unfold ParseState.resetFlags
    rw [hflag, Bool.and_false]
    rfl
  unfold parseOption
  rw [hgetopt]
  show (switchOpt c (s.resetFlags opt).args opt optarg >>= fun g =>
    Except.ok { s.resetFlags opt with args := g }) = _
  rw [hreset, hswitch]
  rfl

/-- Every option of the table, with an argument of its kind, is one assignment. -/
theorem parseOption_eq_assign (c : Constants) (s : ParseState) {o : LongOption}
    (h : o.WellFormed) :
    parseOption c s (.known o) =
      .ok (argsLayout.assign (fun o => o.name.written) (ArgField.effect c) s o) := by
  obtain ⟨hhelp, haccepts⟩ := h
  rcases o with ⟨name, optarg⟩
  cases name
  case help => exact absurd rfl hhelp
  case explibDisabled =>
    obtain rfl : optarg = none := haccepts
    -- `getopt_long` returns `ARG_HELP`, so the field is `help`
    exact parseOption_of_switch rfl rfl rfl
  case hsRulesPath | rgxRulesPath =>
    have harg := strncpyArg_path haccepts
    obtain ⟨t, rfl⟩ := haccepts
    exact parseOption_of_switch rfl rfl (bind_of_eq_ok harg _)
  case rgxRuleSubsetRatio =>
    have harg := subsetRatiosArg_ratios haccepts
    obtain ⟨t, rfl, -⟩ := haccepts
    exact parseOption_of_switch rfl rfl (bind_of_eq_ok harg _)
  case rgxNumOfMatchMode =>
    have harg := parseMatchMode_matchMode (c := c) haccepts
    obtain ⟨t, n, rfl, -⟩ := haccepts
    exact parseOption_of_switch rfl rfl (bind_of_eq_ok harg _)
  case hsEnabled | rgxEnabled | rgxDescriptors | rgxStatsHistogramBucketSize | portMtu
      | portMpSize | portMpCacheSize | portRxDescriptors | portTxDescriptors | portBurstSize
      | forwardingMode =>
    have harg := atoiArg_number haccepts
    obtain ⟨t, n, rfl, -⟩ := haccepts
    exact parseOption_of_switch rfl rfl (bind_of_eq_ok harg _)
  -- the flags of Hyperscan: the first one resets the field
  all_goals
    obtain rfl : optarg = none := haccepts
    rcases s with ⟨g, _ | _⟩ <;> rfl

theorem finishArgs_help {g : GAppArgs} (h : g.help = true) :
    finishArgs g = .error (.usage none .success) := if_pos h

theorem finishArgs_zero {g : GAppArgs} (hhelp : g.help = false)
    (h : g.rgxStatsHistogramBucketSize = 0) : finishArgs g = .error .undefined := by
  unfold finishArgs
  rw [if_neg (Bool.eq_false_iff.mp hhelp), if_pos h]

theorem finishArgs_ok {g : GAppArgs} (hhelp : g.help = false)
    (h : g.rgxStatsHistogramBucketSize ≠ 0) :
    finishArgs g = .ok { g with
      rgxStatsHistogramBucketCnt := g.portBurstSize / g.rgxStatsHistogramBucketSize } := by
  unfold finishArgs
  rw [if_neg (Bool.eq_false_iff.mp hhelp), if_neg h]

/-! ## What the loop does -/

/-- The state behind the loop. -/
def parsed (c : Constants) (opts : List LongOption) : ParseState :=
  opts.foldl (argsLayout.assign (fun o => o.name.written) (ArgField.effect c))
    ⟨GAppArgs.initial c, false⟩

theorem foldlM_parseOption (c : Constants) (s : ParseState) {opts : List LongOption}
    (h : ∀ o ∈ opts, o.WellFormed) :
    (opts.map ArgvOption.known).foldlM (parseOption c) s =
      .ok (opts.foldl (argsLayout.assign (fun o => o.name.written) (ArgField.effect c)) s) := by
  induction opts generalizing s with
  | nil => rfl
  | cons o opts ih =>
    rw [List.map_cons, List.foldlM_cons, parseOption_eq_assign c s (h o List.mem_cons_self)]
    exact ih _ fun o ho => h o (List.mem_cons_of_mem _ ho)

theorem argsParse_eq (c : Constants) {opts : List LongOption} (h : ∀ o ∈ opts, o.WellFormed) :
    argsParse c (opts.map .known) = finishArgs (parsed c opts).args := by
  unfold argsParse
  rw [foldlM_parseOption c _ h]
  rfl

/-- One `--explib_disabled` is enough for the usage. -/
theorem parsed_help (c : Constants) {opts : List LongOption} {o : LongOption} (ho : o ∈ opts)
    (hname : o.name = .explibDisabled) : (parsed c opts).args.help = true := by
  have hlast := argsLayout.get_foldl_assign_last (fun o => o.name.written) (ArgField.effect c)
    ⟨GAppArgs.initial c, false⟩ opts .help (fun _ => true) fun _ _ => rfl
  have hmem : o ∈ opts.filter fun o => o.name.written = .help := by
    rw [List.mem_filter, hname]
    exact ⟨ho, rfl⟩
  rw [List.getLast?_eq_getLast_of_ne_nil (List.ne_nil_of_mem hmem)] at hlast
  exact hlast

section NoExplib

variable {opts : List LongOption}

/-- Without `--explib_disabled`, every option writes its own field. -/
theorem filter_written (h : ∀ o ∈ opts, o.name ≠ .explibDisabled) (f : ArgField) :
    (opts.filter fun o => o.name.written = f) = byField f opts := by
  apply List.filter_congr
  intro o ho
  unfold OptName.written
  rw [if_neg (h o ho)]

theorem get_parsed_last (c : Constants) (h : ∀ o ∈ opts, o.name ≠ .explibDisabled)
    (f : ArgField) (value : LongOption → f.Value) (heffect : ∀ o v, f.effect c o v = value o) :
    (parsed c opts).get f =
      lastEffect f value (ParseState.get ⟨GAppArgs.initial c, false⟩ f) opts := by
  have hlast := argsLayout.get_foldl_assign_last (fun o => o.name.written) (ArgField.effect c)
    ⟨GAppArgs.initial c, false⟩ opts f value heffect
  rw [filter_written h] at hlast
  exact hlast

theorem get_parsed_of_byField_eq_nil (c : Constants)
    (h : ∀ o ∈ opts, o.name ≠ .explibDisabled) {f : ArgField} (hnil : byField f opts = []) :
    (parsed c opts).get f = ParseState.get ⟨GAppArgs.initial c, false⟩ f := by
  have hfold := argsLayout.get_foldl_assign (fun o => o.name.written) (ArgField.effect c)
    ⟨GAppArgs.initial c, false⟩ opts f
  rw [filter_written h, hnil] at hfold
  exact hfold

/-- The first flag clears the default, the others add to it. -/
theorem foldl_hsFlags (c : Constants) (flags : UInt32) (opts : List LongOption) :
    opts.foldl (fun v o => ArgField.effect c .hsFlags o v) (flags, true) =
      (opts.foldl (fun flags o => flags ||| o.name.hsFlag c) flags, true) := by
  induction opts generalizing flags with
  | nil => rfl
  | cons o opts ih => exact ih (flags ||| o.name.hsFlag c)

/-- The flags of Hyperscan are the last ones given, or the default. -/
theorem get_parsed_hsFlags (c : Constants) (h : ∀ o ∈ opts, o.name ≠ .explibDisabled) :
    (parsed c opts).args.hsFlags = givenFlags c (hsExpressionFlags c) opts := by
  have hfold := argsLayout.get_foldl_assign (fun o => o.name.written) (ArgField.effect c)
    ⟨GAppArgs.initial c, false⟩ opts .hsFlags
  rw [filter_written h] at hfold
  have hfold : ((parsed c opts).args.hsFlags, (parsed c opts).hsFlagSpecified) =
      (byField .hsFlags opts).foldl (fun v o => ArgField.effect c .hsFlags o v)
        (hsExpressionFlags c, false) := hfold
  unfold givenFlags
  cases hflags : byField .hsFlags opts with
  | nil =>
    rw [hflags] at hfold
    exact (Prod.mk.inj hfold).1
  | cons o os =>
    -- the first flag finds `hs_flag_specified` false, the others find it true
    rw [hflags, List.foldl_cons] at hfold
    exact (Prod.mk.inj (hfold.trans (foldl_hsFlags c (0 ||| o.name.hsFlag c) os))).1

theorem byField_eq_nil {f : ArgField} (h : ∀ o ∈ opts, o.name.field ≠ f) :
    byField f opts = [] := by
  apply List.filter_eq_nil_iff.mpr
  intro o ho
  rw [decide_eq_true_eq]
  exact h o ho

theorem OptName.eq_help_of_field {n : OptName} (h : n.field = .help) : n = .help := by
  cases n <;> first | rfl | cases h

theorem OptName.eq_explibDisabled_of_field {n : OptName} (h : n.field = .explibOut) :
    n = .explibDisabled := by
  cases n <;> first | rfl | cases h

/-- No option is for the derived field. -/
theorem OptName.field_ne_bucketCnt (n : OptName) : n.field ≠ .rgxStatsHistogramBucketCnt := by
  cases n <;> decide

/-- What the loop leaves is what the options mean, but for the count of buckets that is derived
behind it. -/
theorem parsed_eq (c : Constants) (hwf : ∀ o ∈ opts, o.WellFormed)
    (h : ∀ o ∈ opts, o.name ≠ .explibDisabled) :
    parsed c opts = ⟨{ lastEffects c opts with rgxStatsHistogramBucketCnt := 0 },
      (parsed c opts).hsFlagSpecified⟩ := by
  apply ParseState.ext_get
  intro f
  cases f
  case help =>
    apply get_parsed_of_byField_eq_nil c h
    exact byField_eq_nil fun o ho hfield => (hwf o ho).not_help (OptName.eq_help_of_field hfield)
  case explibOut =>
    have hnone : (opts.any fun o => o.name == .explibDisabled) = false :=
      List.any_eq_false.mpr fun o ho => by simpa using h o ho
    show _ = !(opts.any fun o => o.name == .explibDisabled)
    rw [hnone]
    apply get_parsed_of_byField_eq_nil c h
    exact byField_eq_nil fun o ho hfield => h o ho (OptName.eq_explibDisabled_of_field hfield)
  case hsFlags => exact congrArg (·, _) (get_parsed_hsFlags c h)
  case rgxStatsHistogramBucketCnt =>
    apply get_parsed_of_byField_eq_nil c h
    exact byField_eq_nil fun o _ => o.name.field_ne_bucketCnt
  -- the other fields keep the last argument
  all_goals exact get_parsed_last c h _ _ fun _ _ => rfl

end NoExplib

/-! ## When the fields are local -/

theorem mem_of_sameByField {opts opts' : List LongOption} (h : SameByField opts opts')
    {o : LongOption} (ho : o ∈ opts') : o ∈ opts := by
  have hmem : o ∈ byField o.name.field opts' := List.mem_filter.mpr ⟨ho, decide_eq_true rfl⟩
  rw [h] at hmem
  exact (List.mem_filter.mp hmem).1

/-- What `atoi` can read without overflow fits in an `int`. -/
theorem atoi_range {t : CString} {n : ℤ} (h : atoi t = some n) : -2 ^ 31 ≤ n ∧ n < 2 ^ 31 := by
  unfold atoi at h
  by_cases hrange : -2 ^ 31 ≤ signedDigits (t.bytes.dropWhile isspace) ∧
      signedDigits (t.bytes.dropWhile isspace) < 2 ^ 31
  · obtain rfl := Option.some.inj ((if_pos hrange).symm.trans h)
    exact hrange
  · exact absurd ((if_neg hrange).symm.trans h) (by simp)

theorem LongOption.number_range (o : LongOption) : -2 ^ 31 ≤ o.number ∧ o.number < 2 ^ 31 := by
  unfold LongOption.number
  cases h : o.optarg.bind atoi with
  | none => decide
  | some n =>
    obtain ⟨t, -, ht⟩ := Option.bind_eq_some_iff.mp h
    exact atoi_range ht

/-- A number of an `int` is zero as an `uint32_t` only if it is zero. -/
theorem ofInt_number_eq_zero (o : LongOption) : UInt32.ofInt o.number = 0 ↔ o.number = 0 := by
  constructor
  · intro h
    have hrange := o.number_range
    have hmod : (o.number % 2 ^ 32).toNat % 2 ^ 32 = 0 := by
      have htoNat := congrArg UInt32.toNat h
      rwa [UInt32.ofInt, UInt32.toNat_ofNat'] at htoNat
    omega
  · intro h
    rw [h]
    rfl

/-- The bucket size is zero exactly when the last one given is. -/
theorem lastEffects_bucketSize_eq_zero (c : Constants) (opts : List LongOption) :
    (lastEffects c opts).rgxStatsHistogramBucketSize = 0 ↔
      ∃ o, (byField .rgxStatsHistogramBucketSize opts).getLast? = some o ∧ o.number = 0 := by
  show lastEffect .rgxStatsHistogramBucketSize (fun o => UInt32.ofInt o.number) 4 opts = 0 ↔ _
  unfold lastEffect
  cases hlast : (byField .rgxStatsHistogramBucketSize opts).getLast? with
  | none => exact ⟨fun h => absurd h (by decide), fun ⟨_, h, _⟩ => absurd h (by simp)⟩
  | some o =>
    refine (ofInt_number_eq_zero o).trans ⟨fun h => ⟨o, rfl, h⟩, fun ⟨o', ho', h⟩ => ?_⟩
    exact Option.some.inj ho' ▸ h

/-- Without `--explib_disabled`, `args_parse` returns what the options mean unless it divides by
zero. -/
theorem argsParse_eq_lastEffects (c : Constants) {opts : List LongOption}
    (hwf : ∀ o ∈ opts, o.WellFormed) (hex : ∀ o ∈ opts, o.name ≠ .explibDisabled) :
    argsParse c (opts.map .known) =
      if (lastEffects c opts).rgxStatsHistogramBucketSize = 0 then .error .undefined
      else .ok (lastEffects c opts) := by
  rw [argsParse_eq c hwf, parsed_eq c hwf hex]
  by_cases hzero : (lastEffects c opts).rgxStatsHistogramBucketSize = 0
  · rw [if_pos hzero]
    exact finishArgs_zero rfl hzero
  · rw [if_neg hzero]
    exact finishArgs_ok rfl hzero

/-- `args_parse` reads each field off its own options, in any order, if and only if
`--explib_disabled` is not given and the last bucket size is not zero. -/
theorem argsParse_fieldLocal_iff (c : Constants) {opts : List LongOption}
    (hwf : ∀ o ∈ opts, o.WellFormed) :
    FieldLocal c opts ↔
      (∀ o ∈ opts, o.name ≠ .explibDisabled) ∧
        ∀ o, (byField .rgxStatsHistogramBucketSize opts).getLast? = some o → o.number ≠ 0 := by
  constructor
  · intro hlocal
    have heffects := hlocal.effects
    -- neither the usage nor a division by zero returns
    have hex : ∀ o ∈ opts, o.name ≠ .explibDisabled := by
      intro o ho hname
      rw [argsParse_eq c hwf, finishArgs_help (parsed_help c ho hname)] at heffects
      cases heffects
    refine ⟨hex, fun o ho hzero => ?_⟩
    have hsize := (lastEffects_bucketSize_eq_zero c opts).mpr ⟨o, ho, hzero⟩
    rw [argsParse_eq_lastEffects c hwf hex, if_pos hsize] at heffects
    cases heffects
  · intro h
    obtain ⟨hex, hsize⟩ := h
    have hne : (lastEffects c opts).rgxStatsHistogramBucketSize ≠ 0 := by
      intro hzero
      obtain ⟨o, ho, hnumber⟩ := (lastEffects_bucketSize_eq_zero c opts).mp hzero
      exact hsize o ho hnumber
    refine ⟨?_, fun opts' hsame => ?_⟩
    · rw [argsParse_eq_lastEffects c hwf hex, if_neg hne]
    · have hwf' : ∀ o ∈ opts', o.WellFormed := fun o ho => hwf o (mem_of_sameByField hsame ho)
      have hex' : ∀ o ∈ opts', o.name ≠ .explibDisabled :=
        fun o ho => hex o (mem_of_sameByField hsame ho)
      have hparsed : parsed c opts' = parsed c opts := by
        apply argsLayout.foldl_assign_congr
        intro f
        rw [filter_written hex, filter_written hex', hsame f]
      rw [argsParse_eq c hwf', argsParse_eq c hwf, hparsed]

/-- The bits of the two libraries. -/
def libraryBits : Constants where
  hsFlagCaseless := 1
  hsFlagDotall := 2
  hsFlagMultiline := 4
  hsFlagSinglematch := 8
  hsFlagAllowempty := 16
  hsFlagUtf8 := 32
  hsFlagUcp := 64
  hsFlagPrefilter := 128
  hsFlagSomLeftmost := 256
  hsFlagCombination := 512
  hsFlagQuiet := 1024
  stopOnMatchF := 16
  matchHighPriorityF := 32

/-- `--hs_flag_caseless --port_burst_size 32 --hs_flag_dotall --port_burst_size 16`. -/
theorem argsParse_fieldLocal_four :
    FieldLocal libraryBits
      [⟨.hsFlagCaseless, none⟩, ⟨.portBurstSize, some ⟨[51, 50], by decide⟩⟩,
        ⟨.hsFlagDotall, none⟩, ⟨.portBurstSize, some ⟨[49, 54], by decide⟩⟩] := by
  refine (argsParse_fieldLocal_iff libraryBits ?_).mpr ⟨?_, ?_⟩
  · simp only [List.forall_mem_cons]
    exact ⟨⟨by decide, rfl⟩, ⟨by decide, _, 32, rfl, by decide⟩, ⟨by decide, rfl⟩,
      ⟨by decide, _, 16, rfl, by decide⟩, fun _ h => absurd h List.not_mem_nil⟩
  · simp only [List.forall_mem_cons]
    exact ⟨by decide, by decide, by decide, by decide, fun _ h => absurd h List.not_mem_nil⟩
  · intro o h
    cases h

/-- `--explib_disabled` prints the usage and exits. -/
theorem not_fieldLocal_explibDisabled :
    ¬ ∀ (c : Constants) (opts : List LongOption), (∀ o ∈ opts, o.WellFormed) →
      FieldLocal c opts := by
  intro hall
  have hwf : ∀ o ∈ [(⟨.explibDisabled, none⟩ : LongOption)], o.WellFormed :=
    List.forall_mem_singleton.mpr ⟨by decide, rfl⟩
  have heffects := (hall libraryBits _ hwf).effects
  have hexit : argsParse libraryBits [.known ⟨.explibDisabled, none⟩] =
      .error (.usage none .success) := rfl
  rw [List.map_singleton, hexit] at heffects
  cases heffects

end RegexTest
end PamoRxpBench
