import PamoRxpBench.Library.Binary64

/-!
# `autotest`: `params_rule_subsets.py`

`divide_space`, `format_lists` and `gen_params`: the ratio strings of an experiment. A floating
point number is the rational that it denotes; `none` is an `OverflowError`.
-/

namespace PamoRxpBench
namespace Autotest

open Binary64

/-- `divide_space`. -/
def divideSpace (firstGroupPercentage : ℚ) (groups : ℤ) (totalPercentage : ℚ) :
    Option (List ℚ) := do
  let remainingPercentage ← ofRat (totalPercentage - firstGroupPercentage)
  if groups - 1 = 0 ∨ remainingPercentage = 0 then some [roundDigits 3 firstGroupPercentage]
  else do
    -- the divisor is made a `float` first
    let divisor ← ofRat (groups - 1)
    let otherGroupPercentage ← ofRat (remainingPercentage / divisor)
    some (roundDigits 3 firstGroupPercentage ::
      List.replicate (groups - 1).toNat (roundDigits 3 otherGroupPercentage))

/-- `f"{x:.3f}".rstrip('0').rstrip('.')`. -/
def formatRatio (x : ℚ) : Text := ((fixed 3 x).rdropWhile (· = '0')).rdropWhile (· = '.')

/-- The body of the loop of `format_lists`. -/
def formatList : List ℚ → Text
  | [x] => fixed 1 x
  | lst => [':'].intercalate (lst.map formatRatio)

/-- `format_lists`. -/
def formatLists (lists : List (List ℚ)) : List Text := lists.map formatList

/-- The first share of the row `j`; a division of integers and a literal are rounded. -/
def firstShare (j : ℕ) : ℚ := if j = 0 then nearest (1 / 1000) else nearest (j / 100)

/-- The inner loop of `gen_params`, `for j in range(0, 101, 10)`. -/
def groupParams (groups : ℤ) : Option (List (List ℚ)) :=
  [0, 10, 20, 30, 40, 50, 60, 70, 80, 90, 100].mapM fun j => divideSpace (firstShare j) groups 1

/-- The outer loop of `gen_params`. -/
def paramsLoop (groupCnt : ℤ) : List ℕ → Option (List (List ℚ))
  | [] => some []
  | i :: exponents =>
    if 2 ^ i > groupCnt then some []
    else do
      let params ← groupParams (2 ^ i)
      let rest ← paramsLoop groupCnt exponents
      some (params ++ rest)

/-- `gen_params`; the step is not used. -/
def genParams (_groupPercentageStep groupCnt : ℤ) : Option (List Text) :=
  (paramsLoop groupCnt (List.range' 1 9999)).map formatLists

end Autotest
end PamoRxpBench
