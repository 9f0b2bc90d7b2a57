import PamoRxpBench.Data.RxpcFilter

/-!
# `data`: the working set

`full_rxpc_filter` of `rule_sampler.py`. The compiler is a parameter: for the number of the call
and the file of expressions it leaves the lines of its log and of its summary, so its verdicts
may differ from call to call.
-/

namespace PamoRxpBench
namespace Data

/-- What a run of `rxpc` leaves. -/
structure RxpcOutput where
  log : List Text
  summary : List Text

/-! ## `rxcp_get_n_uncompiled` -/

/-- `Total number of uncompiled rules,`. -/
def uncompiledKey : Text := "Total number of uncompiled rules,".toList

/-- `Total number of uncompiled rules,(?P<nuncompiled>\d+)` at the start of the text: the group. -/
def matchUncompiled (s : Text) : Option ℕ :=
  if uncompiledKey.isPrefixOf s then
    let digits := (s.drop uncompiledKey.length).takeWhile Char.isDigit
    if digits = [] then none else some (Nat.ofDigitChars 10 digits 0)
  else none

/-- `extractor.search(lines[-1])`. -/
def searchUncompiled : Text → Option ℕ
  | [] => none
  | c :: s => (matchUncompiled (c :: s)).or (searchUncompiled s)

/-- `rxcp_get_n_uncompiled`; it raises without lines and without a match. -/
def rxcpGetNUncompiled (lines : List Text) : Option ℕ := lines.getLast?.bind searchUncompiled

/-! ## `full_rxpc_filter` -/

/-- How `full_rxpc_filter` can fail, or not be done yet. -/
inductive FullError
  | filterRxpc (e : Error)
  | nUncompiled
  | outOfFuel

/-- What the last call of `filter_rxpc` leaves; `nIt` is its number. -/
structure FullFilter where
  nIt : ℕ
  st : Submission
  output : RxpcOutput
  dbOut : List Text

variable (parseRule : Text → Option Rule) (rxpc : ℕ → Text → RxpcOutput) (maxRules : ℕ)

/-- The call of `filter_rxpc` number `nIt`. -/
def filterCall (nIt : ℕ) (dbIn : List Text) : Except FullError FullFilter :=
  match filterRxpc parseRule (fun rgxs => (rxpc nIt rgxs).log) true true maxRules dbIn with
  | .error e => .error (.filterRxpc e)
  | .ok (st, kept) => .ok ⟨nIt, st, rxpc nIt (tempRgx st.inRgxs), kept⟩

/-- `while rxcp_get_n_uncompiled(out_name) > 0`, for at most `fuel` tests. -/
def filterLoop : ℕ → FullFilter → Except FullError FullFilter
  | 0, _ => .error .outOfFuel
  | fuel + 1, s =>
    match rxcpGetNUncompiled s.output.summary with
    | none => .error .nUncompiled
    | some nUncompiled =>
      if nUncompiled > 0 then do
        -- `db_out` is read and written in place
        let s ← filterCall parseRule rxpc maxRules (s.nIt + 1) s.dbOut
        filterLoop fuel s
      else .ok s

/-- `full_rxpc_filter`. -/
def fullRxpcFilter (iterative : Bool) (fuel : ℕ) (dbIn : List Text) :
    Except FullError FullFilter := do
  let s ← filterCall parseRule rxpc maxRules 1 dbIn
  if iterative then filterLoop parseRule rxpc maxRules fuel s else return s

/-! ## `gen_working_set` -/

/-- `rule_sampler.py … gen_working_set`, once `full_rxpc_filter` has ended: the lines of the output
file, and the exception, if there is one. -/
def genWorkingSet (hscheck : Text → Completed) (iterative : Bool) (fuel : ℕ) (dbIn : List Text) :
    Except FullError (List Text × Option Error) := do
  let s ← fullRxpcFilter parseRule rxpc maxRules iterative fuel dbIn
  return match filterHyperscan parseRule hscheck s.dbOut with
    -- the output file is opened behind everything that can raise
    | .error e => (s.dbOut, some e)
    | .ok lines => (lines, none)

end Data
end PamoRxpBench
