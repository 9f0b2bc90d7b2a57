import Mathlib.Data.Int.Log
import Mathlib.Data.Rat.Floor
import Mathlib.Algebra.Order.Field.Power
import Mathlib.Tactic.Linarith
import PamoRxpBench.Library.Text

/-!
# Floating point numbers of 64 bits

A finite floating point number is the rational that it denotes. The result of an operation is the
exact result rounded to the nearest number of 53 bits, the even one of two that are equally near
(`Binary64.nearest`); if that is too large, there is no finite result (`Binary64.ofRat`).
-/

namespace PamoRxpBench
namespace Binary64

/-! ## The nearest integer -/

/-- The nearest integer, the even one of two that are equally near. -/
def roundEven (x : ℚ) : ℤ :=
  if 1 / 2 < x - ⌊x⌋ ∨ x - ⌊x⌋ = 1 / 2 ∧ ⌊x⌋ % 2 = 1 then ⌊x⌋ + 1 else ⌊x⌋

/-- What reaches `m` when it is rounded: more than half below it, or exactly half below an even one.
-/
theorem le_roundEven_iff {x : ℚ} {m : ℤ} :
    m ≤ roundEven x ↔ (m : ℚ) - 1 / 2 < x ∨ (m : ℚ) - 1 / 2 = x ∧ Even m := by
  have hle := Int.floor_le x
  have hlt := Int.lt_floor_add_one x
  unfold roundEven
  by_cases hm : m ≤ ⌊x⌋
  · have hcast : (m : ℚ) ≤ ⌊x⌋ := Int.cast_le.mpr hm
    refine iff_of_true ?_ (Or.inl (by linarith))
    split_ifs <;> omega
  · by_cases hnext : m = ⌊x⌋ + 1
    · have hcast : (m : ℚ) = ⌊x⌋ + 1 := by
        rw [hnext]
        push_cast
        rfl
      have heven : Even m ↔ ⌊x⌋ % 2 = 1 := by
        rw [Int.even_iff]
        omega
      rw [heven]
      split_ifs with hup
      · refine iff_of_true (by omega) ?_
        rcases hup with hup | ⟨hhalf, hodd⟩
        · exact Or.inl (by linarith)
        · exact Or.inr ⟨by linarith, hodd⟩
      · refine iff_of_false (by omega) fun h => hup ?_
        rcases h with h | ⟨hhalf, hodd⟩
        · exact Or.inl (by linarith)
        · exact Or.inr ⟨by linarith, hodd⟩
    · have hcast : (⌊x⌋ : ℚ) + 2 ≤ m := by
        have : ⌊x⌋ + 2 ≤ m := by omega
        exact_mod_cast this
      refine iff_of_false ?_ fun h => ?_
      · split_ifs <;> omega
      · rcases h with h | ⟨h, _⟩ <;> linarith

theorem le_roundEven {x : ℚ} {m : ℤ} (h : (m : ℚ) ≤ x) : m ≤ roundEven x :=
  le_roundEven_iff.mpr (Or.inl (by linarith))

theorem roundEven_le {x : ℚ} {m : ℤ} (h : x ≤ m) : roundEven x ≤ m := by
  by_contra hlt
  have hle : m + 1 ≤ roundEven x := by omega
  rw [le_roundEven_iff] at hle
  push_cast at hle
  rcases hle with hle | ⟨hle, _⟩ <;> linarith

theorem roundEven_intCast (m : ℤ) : roundEven m = m :=
  (roundEven_le le_rfl).antisymm (le_roundEven le_rfl)

/-- Ties go to an even number on both sides of 0. -/
theorem roundEven_neg (x : ℚ) : roundEven (-x) = -roundEven x := by
  refine eq_of_forall_le_iff fun m => ?_
  have hflip : m ≤ -roundEven x ↔ ¬ 1 - m ≤ roundEven x := by omega
  have hparity : Even (1 - m) ↔ ¬ Even m := by
    rw [Int.even_iff, Int.even_iff]
    omega
  rw [hflip, le_roundEven_iff, le_roundEven_iff, hparity]
  push_cast
  constructor
  · rintro (h | ⟨h, heven⟩) (hup | ⟨hup, hodd⟩)
    · linarith
    · linarith
    · linarith
    · exact hodd heven
  · intro h
    rw [not_or, not_lt, not_and_not_right] at h
    rcases h.1.lt_or_eq with hlt | heq
    · exact Or.inl (by linarith)
    · exact Or.inr ⟨by linarith, h.2 heq.symm⟩

/-! ## Rounding -/

/-- The exponent of the last bit of the numbers about `x`. -/
def lastExponent (x : ℚ) : ℤ := max (Int.log 2 |x| - 52) (-1074)

/-- The distance of the numbers about `x`. -/
def gap (x : ℚ) : ℚ := 2 ^ lastExponent x

/-- The nearest number, with no bound on its size. -/
def nearest (x : ℚ) : ℚ := roundEven (x / gap x) * gap x

/-- The nearest number, if it is finite. -/
def ofRat (x : ℚ) : Option ℚ := if |nearest x| < 2 ^ 1024 then some (nearest x) else none

theorem gap_pos (x : ℚ) : 0 < gap x := zpow_pos (by norm_num) _

theorem nearest_zero : nearest 0 = 0 := by decide +kernel

/-- The rounding keeps the sign. -/
theorem nearest_nonneg {x : ℚ} (h : 0 ≤ x) : 0 ≤ nearest x := by
  have hdiv : ((0 : ℤ) : ℚ) ≤ x / gap x := by
    rw [Int.cast_zero]
    exact div_nonneg h (gap_pos x).le
  exact mul_nonneg (Int.cast_nonneg (le_roundEven hdiv)) (gap_pos x).le

/-- The number nearest to `x` is at least `k`: `x` is not nearer to the multiple of the gap below
the first one that is at least `k`. -/
def Reaches (x : ℚ) (k : ℤ) : Prop :=
  ⌈k / gap x⌉ * gap x - gap x / 2 < x ∨
    ⌈k / gap x⌉ * gap x - gap x / 2 = x ∧ Even ⌈(k : ℚ) / gap x⌉

/-- Which rounded values are at least `k`, by the point at which `k` is reached. -/
theorem le_nearest_iff {x : ℚ} {k : ℤ} : (k : ℚ) ≤ nearest x ↔ Reaches x k := by
  have hpos := gap_pos x
  have hscale : ∀ m : ℤ, (m * gap x - gap x / 2 < x ↔ (m : ℚ) - 1 / 2 < x / gap x) ∧
      (m * gap x - gap x / 2 = x ↔ (m : ℚ) - 1 / 2 = x / gap x) := by
    intro m
    rw [lt_div_iff₀ hpos, eq_div_iff hpos.ne', sub_mul, one_div, inv_mul_eq_div]
    exact ⟨Iff.rfl, Iff.rfl⟩
  rw [Reaches, (hscale _).1, (hscale _).2, ← le_roundEven_iff, Int.ceil_le, div_le_iff₀ hpos]
  rfl

/-! ## Numbers -/

/-- A number: a significand of 53 bits and an exponent. -/
def IsNumber (y : ℚ) : Prop := ∃ m e : ℤ, y = m * 2 ^ e ∧ |m| ≤ 2 ^ 53 ∧ -1074 ≤ e

theorem lt_two_zpow_log_add_one {x : ℚ} (h : 0 ≤ x) : x < 2 ^ (Int.log 2 |x| + 1) := by
  have hlt := Int.lt_zpow_succ_log_self (b := 2) (by norm_num) |x|
  rw [abs_of_nonneg h] at hlt ⊢
  exact hlt

theorem two_zpow_log_le {x : ℚ} (h : 0 < x) : 2 ^ Int.log 2 |x| ≤ x := by
  rw [abs_of_pos h]
  exact Int.zpow_log_le_self (b := 2) (by norm_num) h

theorem nearest_isNumber {x : ℚ} (h : 0 ≤ x) : IsNumber (nearest x) := by
  refine ⟨roundEven (x / gap x), lastExponent x, rfl, ?_, le_max_right _ _⟩
  have hlog := lt_two_zpow_log_add_one h
  have hscale : (2 : ℚ) ^ (Int.log 2 |x| + 1) ≤ (2 ^ 53 : ℤ) * gap x := by
    rw [gap, Int.cast_pow, Int.cast_ofNat, ← zpow_natCast, ← zpow_add₀ two_ne_zero]
    apply zpow_le_zpow_right₀ one_le_two
    have := le_max_left (Int.log 2 |x| - 52) (-1074)
    unfold lastExponent
    push_cast
    omega
  have hupper : x / gap x ≤ (2 ^ 53 : ℤ) := by
    rw [div_le_iff₀ (gap_pos x)]
    exact hlog.le.trans hscale
  have hlower : ((0 : ℤ) : ℚ) ≤ x / gap x := by
    rw [Int.cast_zero]
    exact div_nonneg h (gap_pos x).le
  rw [abs_of_nonneg (le_roundEven hlower)]
  exact roundEven_le hupper

/-- A number is a multiple of the gap of those below it. -/
theorem IsNumber.exists_multiple {x y : ℚ} (hy : IsNumber y) (h : 0 < x) (hle : x ≤ y) :
    ∃ k : ℤ, y = k * gap x := by
  obtain ⟨m, e, rfl, hm, he⟩ := hy
  by_cases hexp : lastExponent x ≤ e
  · -- the gap divides the last bit of `y`
    refine ⟨m * 2 ^ (e - lastExponent x).toNat, ?_⟩
    have hsplit : (2 : ℚ) ^ e = 2 ^ (e - lastExponent x).toNat * gap x := by
      rw [gap, ← zpow_natCast, ← zpow_add₀ two_ne_zero, Int.toNat_of_nonneg (by omega)]
      congr 1
      omega
    rw [hsplit]
    push_cast
    ring
  · -- `x` is as large as the largest significand with this exponent, so it is `y`
    have hlast : lastExponent x = Int.log 2 |x| - 52 := by
      unfold lastExponent at hexp ⊢
      omega
    have hlog : (2 : ℚ) ^ Int.log 2 |x| = 2 ^ 52 * gap x := by
      rw [gap, hlast, ← zpow_natCast, ← zpow_add₀ two_ne_zero]
      congr 1
      push_cast
      omega
    have hlower : 2 ^ 52 * gap x ≤ x := hlog ▸ two_zpow_log_le h
    have hupper : (m : ℚ) * 2 ^ e ≤ 2 ^ 52 * gap x := by
      have hm' : (m : ℚ) ≤ 2 ^ 53 := by exact_mod_cast (le_abs_self m).trans hm
      calc (m : ℚ) * 2 ^ e ≤ 2 ^ 53 * 2 ^ e := by gcongr
        _ = 2 ^ (53 + e) := by rw [← zpow_natCast, ← zpow_add₀ two_ne_zero]; rfl
        _ ≤ 2 ^ Int.log 2 |x| := zpow_le_zpow_right₀ one_le_two (by omega)
        _ = 2 ^ 52 * gap x := hlog
    refine ⟨2 ^ 52, ?_⟩
    push_cast
    linarith

/-- Rounding does not pass a number. -/
theorem nearest_le {x y : ℚ} (h : 0 ≤ x) (hy : IsNumber y) (hle : x ≤ y) : nearest x ≤ y := by
  by_cases hzero : x = 0
  · subst hzero
    exact nearest_zero.le.trans hle
  · obtain ⟨k, rfl⟩ := hy.exists_multiple (lt_of_le_of_ne h (Ne.symm hzero)) hle
    have hdiv : x / gap x ≤ k := (div_le_iff₀ (gap_pos x)).mpr hle
    exact mul_le_mul_of_nonneg_right (Int.cast_le.mpr (roundEven_le hdiv)) (gap_pos x).le

/-- A number is not rounded. -/
theorem nearest_of_isNumber {y : ℚ} (h : 0 ≤ y) (hy : IsNumber y) : nearest y = y := by
  by_cases hzero : y = 0
  · rw [hzero, nearest_zero]
  · obtain ⟨k, hk⟩ := hy.exists_multiple (lt_of_le_of_ne h (Ne.symm hzero)) le_rfl
    have hdiv : y / gap y = k := (div_eq_iff (gap_pos y).ne').mpr hk
    rw [nearest, hdiv, roundEven_intCast, ← hk]

theorem gap_neg (x : ℚ) : gap (-x) = gap x := by rw [gap, gap, lastExponent, lastExponent, abs_neg]

theorem nearest_neg (x : ℚ) : nearest (-x) = -nearest x := by
  rw [nearest, nearest, gap_neg, neg_div, roundEven_neg, Int.cast_neg, neg_mul]

/-- Rounding keeps the sign. -/
theorem abs_nearest (x : ℚ) : |nearest x| = nearest |x| := by
  rcases le_total 0 x with h | h
  · rw [abs_of_nonneg h, abs_of_nonneg (nearest_nonneg h)]
  · rw [abs_of_nonpos h, nearest_neg, abs_of_nonpos]
    rw [← neg_neg x, nearest_neg, neg_nonpos]
    exact nearest_nonneg (neg_nonneg.mpr h)

/-- A value below `2 ^ 52` has a place behind the point. -/
theorem lastExponent_neg {x : ℚ} (h : 0 ≤ x) (hlt : x < 2 ^ 52) : lastExponent x ≤ -1 := by
  by_cases hzero : x = 0
  · subst hzero
    decide +kernel
  · have hlog := (Int.lt_zpow_iff_log_lt (b := 2) (x := 52) one_lt_two
      (lt_of_le_of_ne h (Ne.symm hzero))).mp (by exact_mod_cast hlt)
    unfold lastExponent
    rw [abs_of_nonneg h]
    omega

/-- A quotient is a float if its rounded value is not too large. -/
theorem ofRat_eq_some_iff {x y : ℚ} :
    ofRat x = some y ↔ |nearest x| < 2 ^ 1024 ∧ nearest x = y := by
  unfold ofRat
  by_cases h : |nearest x| < 2 ^ 1024
  · rw [if_pos h, Option.some.injEq, and_iff_right h]
  · rw [if_neg h]
    exact iff_of_false (Option.some_ne_none _).symm fun hboth => h hboth.1

/-- What is at most a finite number is rounded to one. -/
theorem ofRat_of_abs_le {x y : ℚ} (hy : IsNumber y) (hfinite : y < 2 ^ 1024) (hle : |x| ≤ y) :
    ofRat x = some (nearest x) := by
  rw [ofRat_eq_some_iff, abs_nearest]
  exact ⟨(nearest_le (abs_nonneg x) hy hle).trans_lt hfinite, rfl⟩

theorem ofRat_of_le {x y : ℚ} (h : 0 ≤ x) (hy : IsNumber y) (hfinite : y < 2 ^ 1024) (hle : x ≤ y) :
    ofRat x = some (nearest x) :=
  ofRat_of_abs_le hy hfinite (by rwa [abs_of_nonneg h])

theorem isNumber_one : IsNumber 1 := ⟨1, 0, by norm_num, by norm_num, by norm_num⟩

theorem isNumber_two_pow (k : ℕ) : IsNumber (2 ^ k) :=
  ⟨1, k, by rw [Int.cast_one, one_mul, zpow_natCast], by norm_num, by omega⟩

/-- Half of a count of at most 53 bits is a number. -/
theorem isNumber_half {n : ℕ} (h : n ≤ 2 ^ 53) : IsNumber (n / 2) := by
  refine ⟨n, -1, ?_, ?_, by norm_num⟩
  · rw [zpow_neg_one, div_eq_mul_inv, Int.cast_natCast]
  · rw [Nat.abs_cast]
    exact_mod_cast h

/-- Below `2 ^ 52`, integers are even multiples of the gap. -/
theorem reaches_iff_of_lt {x : ℚ} {k : ℤ} (h : 0 ≤ x) (hlt : x < 2 ^ 52) :
    Reaches x k ↔ k - gap x / 2 ≤ x := by
  have hneg := lastExponent_neg h hlt
  have hmultiple : (k : ℚ) / gap x = (k * 2 ^ (-lastExponent x - 1).toNat * 2 : ℤ) := by
    have hinv : (gap x)⁻¹ = 2 ^ (-lastExponent x - 1).toNat * 2 := by
      rw [gap, ← zpow_neg, ← zpow_natCast, ← zpow_add_one₀ two_ne_zero,
        Int.toNat_of_nonneg (by omega)]
      congr 1
      omega
    rw [div_eq_mul_inv, hinv]
    push_cast
    ring
  have heven : Even ⌈(k : ℚ) / gap x⌉ := by
    rw [hmultiple, Int.ceil_intCast]
    exact even_iff_two_dvd.mpr (Dvd.intro_left _ rfl)
  have hceil : (⌈(k : ℚ) / gap x⌉ : ℚ) * gap x = k := by
    rw [hmultiple, Int.ceil_intCast, ← hmultiple, div_mul_cancel₀ _ (gap_pos x).ne']
  rw [Reaches, hceil, le_iff_lt_or_eq]
  exact or_congr_right (and_iff_left heven)

/-- A value between two powers of two has 53 digits from the lower one on. -/
theorem lastExponent_eq {x : ℚ} {e : ℤ} (hlower : 2 ^ e ≤ x) (hupper : x < 2 ^ (e + 1))
    (he : -1022 ≤ e) : lastExponent x = e - 52 := by
  have hpos : 0 < x := (zpow_pos two_pos e).trans_le hlower
  have hle := (Int.lt_zpow_iff_log_lt (b := 2) one_lt_two hpos).mp (by exact_mod_cast hupper)
  have hge := (Int.zpow_le_iff_le_log (b := 2) one_lt_two hpos).mp (by exact_mod_cast hlower)
  unfold lastExponent
  rw [abs_of_pos hpos]
  omega

/-- Rounding does not pass a power of two. -/
theorem two_zpow_le_nearest {x : ℚ} {e : ℤ} (hle : 2 ^ e ≤ x) (he : -1022 ≤ e) :
    2 ^ e ≤ nearest x := by
  have hpos : 0 < x := (zpow_pos two_pos e).trans_le hle
  have hlog := (Int.zpow_le_iff_le_log (b := 2) one_lt_two hpos).mp (by exact_mod_cast hle)
  have hpow : (2 : ℚ) ^ Int.log 2 x = (2 ^ 52 : ℤ) * gap x := by
    have hlast : lastExponent x = Int.log 2 x - 52 := by
      unfold lastExponent
      rw [abs_of_pos hpos]
      omega
    rw [gap, hlast, Int.cast_pow, Int.cast_ofNat, ← zpow_natCast, ← zpow_add₀ two_ne_zero]
    congr 1
    push_cast
    omega
  have hround : 2 ^ 52 ≤ roundEven (x / gap x) := by
    apply le_roundEven
    rw [le_div_iff₀ (gap_pos x), ← hpow]
    exact Int.zpow_log_le_self (b := 2) one_lt_two hpos
  calc (2 : ℚ) ^ e ≤ 2 ^ Int.log 2 x := zpow_le_zpow_right₀ one_le_two hlog
    _ = (2 ^ 52 : ℤ) * gap x := hpow
    _ ≤ nearest x := mul_le_mul_of_nonneg_right (Int.cast_le.mpr hround) (gap_pos x).le

/-- What is rounded to 1. -/
theorem nearest_eq_one_iff {x : ℚ} (h : 0 ≤ x) :
    nearest x = 1 ↔ 1 - 1 / 2 ^ 54 ≤ x ∧ x ≤ 1 + 1 / 2 ^ 53 := by
  by_cases hone : x < 1
  · -- the gap below 1 is half of the one above
    have hreaches : nearest x = 1 ↔ ((1 : ℤ) : ℚ) - gap x / 2 ≤ x := by
      rw [← reaches_iff_of_lt h (hone.trans (by norm_num)), ← le_nearest_iff, Int.cast_one]
      exact ⟨fun heq => heq.ge, (nearest_le h isNumber_one hone.le).antisymm⟩
    rw [hreaches, Int.cast_one, and_iff_left (hone.le.trans (by norm_num))]
    by_cases hhalf : 1 / 2 ≤ x
    · rw [gap, lastExponent_eq (e := -1) (by norm_num; linarith) (by norm_num; linarith)
        (by norm_num)]
      norm_num
    · have hneg := lastExponent_neg h (hone.trans (by norm_num))
      have hgap : gap x ≤ 1 := zpow_le_one_of_nonpos₀ one_le_two (by omega)
      exact iff_of_false (by linarith) (by linarith)
  · rw [and_iff_right (by linarith)]
    by_cases htwo : x < 2
    · have hgap : gap x = (2 ^ 52)⁻¹ := by
        rw [gap, lastExponent_eq (e := 0) (by norm_num; linarith) (by norm_num; linarith)
          (by norm_num)]
        norm_num
      have hle : ((2 ^ 52 : ℤ) : ℚ) ≤ x / gap x := by
        rw [hgap]
        norm_num
        linarith
      have hnext : 2 ^ 52 + 1 ≤ roundEven (x / gap x) ↔ 1 + 1 / 2 ^ 53 < x := by
        -- `2 ^ 52 + 1` is odd, so a tie goes down
        have hodd : ¬ Even (2 ^ 52 + 1 : ℤ) := by decide
        rw [le_roundEven_iff, or_iff_left (not_and_of_not_right _ hodd), hgap]
        norm_num
        constructor <;> intro hlt <;> linarith
      rw [← not_lt, ← hnext, nearest, hgap, mul_inv_eq_one₀ (by norm_num), ← hgap]
      have hfloor := le_roundEven hle
      constructor
      · intro heq
        have hround : roundEven (x / gap x) = 2 ^ 52 := by exact_mod_cast heq
        omega
      · intro hlt
        have hround : roundEven (x / gap x) = 2 ^ 52 := by omega
        rw [hround]
        norm_num
    · have hlower := two_zpow_le_nearest (x := x) (e := 1) (by norm_num; linarith) (by norm_num)
      rw [zpow_one] at hlower
      exact iff_of_false (by linarith) (by linarith)

/-- `round(x, d)`. -/
def roundDigits (d : ℕ) (x : ℚ) : ℚ := nearest (roundEven (x * 10 ^ d) / 10 ^ d)

/-- `int(x)`. -/
def truncate (x : ℚ) : ℤ := x.num.tdiv x.den

theorem truncate_of_nonneg {x : ℚ} (h : 0 ≤ x) : truncate x = ⌊x⌋ := by
  rw [truncate, Int.tdiv_eq_ediv_of_nonneg (Rat.num_nonneg.mpr h), Rat.floor_def']

/-! ## Decimal texts -/

/-- The digits of a part, where single `_` may stand between digits. -/
def digitPart (s : Text) : Option Text :=
  let parts := s.splitOn '_'
  if parts.all fun part => !part.isEmpty && part.all Char.isDigit then some parts.flatten else none

/-- A part that may be missing. -/
def optionalDigitPart (s : Text) : Option Text := if s = [] then some [] else digitPart s

/-- A number without a sign and an exponent. -/
def readMantissa (s : Text) : Option ℚ :=
  match s.splitOn '.' with
  | [whole] => (Text.readDigits whole).map fun n => (n : ℚ)
  | [whole, fraction] =>
    if whole = [] ∧ fraction = [] then none
    else do
      let digits ← optionalDigitPart whole
      let decimals ← optionalDigitPart fraction
      some (Nat.ofDigitChars 10 (digits ++ decimals) 0 / 10 ^ decimals.length)
  | _ => none

/-- An exponent. -/
def readExponent (s : Text) : Option ℤ :=
  match s with
  | '-' :: s => (Text.readDigits s).map fun n => -(n : ℤ)
  | '+' :: s => (Text.readDigits s).map fun n => (n : ℤ)
  | s => (Text.readDigits s).map fun n => (n : ℤ)

/-- A number without a sign. -/
def readUnsigned (s : Text) : Option ℚ :=
  match s.splitOnP fun c => c = 'e' || c = 'E' with
  | [mantissa] => readMantissa mantissa
  | [mantissa, exponent] => do
    let x ← readMantissa mantissa
    let k ← readExponent exponent
    some (x * 10 ^ k)
  | _ => none

/-- The decimal fraction that a text denotes. -/
def readDecimal (s : Text) : Option ℚ :=
  match Text.strip s with
  | '-' :: s => (readUnsigned s).map fun x => -x
  | '+' :: s => readUnsigned s
  | s => readUnsigned s

/-- `f"{x:.df}"` for a positive `d`. -/
def fixed (d : ℕ) (x : ℚ) : Text :=
  let n := (roundEven (|x| * 10 ^ d)).natAbs
  let decimals := Text.decimal (n % 10 ^ d)
  (if x < 0 then ['-'] else []) ++ Text.decimal (n / 10 ^ d) ++
    '.' :: (List.replicate (d - decimals.length) '0' ++ decimals)

/-! ## Reading back what is printed -/

/-- A character of a number without a sign and an exponent. -/
def isNumeral (c : Char) : Bool := c.isDigit || c = '.'

theorem ne_of_isNumeral {c d : Char} (h : isNumeral c = true) (hd : isNumeral d = false) :
    c ≠ d := by
  intro heq
  rw [heq, hd] at h
  exact Bool.noConfusion h

theorem isNumeral_of_mem_decimal {n : ℕ} {c : Char} (h : c ∈ Text.decimal n) :
    isNumeral c = true := by
  rw [isNumeral, Text.isDigit_of_mem_decimal h, Bool.true_or]

theorem decimal_ne_nil (n : ℕ) : Text.decimal n ≠ [] := Nat.toDigits_ne_nil

/-- The digits behind the point. -/
def decimals (d n : ℕ) : Text :=
  List.replicate (d - (Text.decimal (n % 10 ^ d)).length) '0' ++ Text.decimal (n % 10 ^ d)

theorem isDigit_of_mem_decimals {d n : ℕ} {c : Char} (h : c ∈ decimals d n) : c.isDigit = true := by
  rcases List.mem_append.mp h with h | h
  · rw [List.eq_of_mem_replicate h]
    rfl
  · exact Text.isDigit_of_mem_decimal h

/-- A fixed number of digits is printed behind the point. -/
theorem length_decimals {d : ℕ} (hd : 0 < d) (n : ℕ) : (decimals d n).length = d := by
  have hlen : (Text.decimal (n % 10 ^ d)).length ≤ d :=
    (Nat.length_toDigits_le_iff (by omega) hd).mpr (Nat.mod_lt n (by positivity))
  rw [decimals, List.length_append, List.length_replicate]
  omega

theorem fixed_of_nonneg {d : ℕ} {x : ℚ} (h : 0 ≤ x) :
    fixed d x = Text.decimal ((roundEven (x * 10 ^ d)).natAbs / 10 ^ d) ++
      '.' :: decimals d (roundEven (x * 10 ^ d)).natAbs := by
  rw [fixed, abs_of_nonneg h, if_neg (not_lt.mpr h)]
  rfl

theorem isNumeral_of_mem_fixed {d : ℕ} {x : ℚ} (h : 0 ≤ x) {c : Char} (hc : c ∈ fixed d x) :
    isNumeral c = true := by
  rw [fixed_of_nonneg h] at hc
  rcases List.mem_append.mp hc with hc | hc
  · exact isNumeral_of_mem_decimal hc
  · rcases List.mem_cons.mp hc with rfl | hc
    · rfl
    · rw [isNumeral, isDigit_of_mem_decimals hc, Bool.true_or]

theorem fixed_ne_nil (d : ℕ) (x : ℚ) : fixed d x ≠ [] :=
  List.append_ne_nil_of_right_ne_nil _ (List.cons_ne_nil _ _)

theorem not_isSpace_of_isNumeral {c : Char} (h : isNumeral c = true) : ¬ Text.isSpace c = true := by
  rw [isNumeral, Bool.or_eq_true] at h
  rcases h with h | h
  · rw [Text.not_isSpace_of_isDigit h]
    decide
  · rw [of_decide_eq_true h]
    decide

/-- A number without a sign and an exponent. -/
theorem readDecimal_of_isNumeral {s : Text} (h : ∀ c ∈ s, isNumeral c = true) :
    readDecimal s = readMantissa s := by
  have hunsigned : readUnsigned s = readMantissa s := by
    have hsplit : s.splitOnP (fun c => c = 'e' || c = 'E') = [s] := by
      apply List.splitOnP_eq_singleton
      intro c hc
      have he := ne_of_isNumeral (d := 'e') (h c hc) rfl
      have hE := ne_of_isNumeral (d := 'E') (h c hc) rfl
      rw [decide_eq_false he, decide_eq_false hE]
      rfl
    rw [readUnsigned, hsplit]
  rw [readDecimal, Text.strip_of_not_isSpace fun c hc => not_isSpace_of_isNumeral (h c hc)]
  split
  · exact absurd rfl (ne_of_isNumeral (d := '-') (h _ List.mem_cons_self) rfl)
  · exact absurd rfl (ne_of_isNumeral (d := '+') (h _ List.mem_cons_self) rfl)
  · exact hunsigned

/-- A whole number is read back. -/
theorem readDecimal_decimal (n : ℕ) : readDecimal (Text.decimal n) = some (n : ℚ) := by
  have hsplit : (Text.decimal n).splitOn '.' = [Text.decimal n] := by
    apply List.splitOn_eq_singleton
    intro h
    exact Text.ne_of_isDigit (Text.isDigit_of_mem_decimal h) rfl rfl
  rw [readDecimal_of_isNumeral fun _ => isNumeral_of_mem_decimal, readMantissa, hsplit]
  show Option.map _ ((Text.readDigits (Text.decimal n)).bind _) = _
  rw [Text.readDigits_decimal]
  rfl

theorem optionalDigitPart_of_isDigit {s : Text} (h : ∀ c ∈ s, c.isDigit = true) :
    optionalDigitPart s = some s := by
  by_cases hnil : s = []
  · rw [optionalDigitPart, if_pos hnil, hnil]
  · have hsplit : s.splitOn '_' = [s] := by
      apply List.splitOn_eq_singleton
      intro hmem
      exact Text.ne_of_isDigit (h _ hmem) rfl rfl
    have hdigits : (!s.isEmpty && s.all Char.isDigit) = true := by
      rw [Bool.and_eq_true, List.all_eq_true, Bool.not_eq_true', List.isEmpty_eq_false_iff]
      exact ⟨hnil, h⟩
    rw [optionalDigitPart, if_neg hnil, digitPart, hsplit, List.all_cons, hdigits]
    exact congrArg some (List.append_nil s)

/-- A number is read back as it was rounded. -/
theorem readDecimal_fixed {d : ℕ} (hd : 0 < d) {x : ℚ} (h : 0 ≤ x) :
    readDecimal (fixed d x) = some ((roundEven (x * 10 ^ d) : ℚ) / 10 ^ d) := by
  have hround : 0 ≤ roundEven (x * 10 ^ d) := le_roundEven (by push_cast; positivity)
  have hwhole : ∀ n, '.' ∉ Text.decimal n := fun n hmem =>
    Text.ne_of_isDigit (Text.isDigit_of_mem_decimal hmem) rfl rfl
  have hsplit : (fixed d x).splitOn '.' =
      [Text.decimal ((roundEven (x * 10 ^ d)).natAbs / 10 ^ d),
        decimals d (roundEven (x * 10 ^ d)).natAbs] := by
    rw [fixed_of_nonneg h, List.splitOn_append_cons_self_of_not_mem (hwhole _),
      List.splitOn_eq_singleton]
    intro hmem
    exact Text.ne_of_isDigit (isDigit_of_mem_decimals hmem) rfl rfl
  -- the digits on both sides of the point are those of the rounded number
  have hdigits : ∀ n, Nat.ofDigitChars 10 (Text.decimal (n / 10 ^ d) ++ decimals d n) 0 = n := by
    intro n
    rw [Nat.ofDigitChars_append, Nat.ofDigitChars_eq_ofDigitChars_zero, length_decimals hd,
      decimals, Nat.ofDigitChars_append, Nat.ofDigitChars_replicate_zero, Nat.mul_zero,
      Text.decimal, Text.decimal, Nat.ofDigitChars_ten_toDigits, Nat.ofDigitChars_ten_toDigits]
    exact Nat.div_add_mod n (10 ^ d)
  rw [readDecimal_of_isNumeral fun _ => isNumeral_of_mem_fixed h, readMantissa, hsplit]
  show (if _ then none else _) = _
  rw [if_neg fun hboth => decimal_ne_nil _ hboth.1,
    optionalDigitPart_of_isDigit fun _ => Text.isDigit_of_mem_decimal,
    optionalDigitPart_of_isDigit fun _ => isDigit_of_mem_decimals]
  show some _ = _
  rw [hdigits, length_decimals hd]
  have hcast : ((roundEven (x * 10 ^ d)).natAbs : ℚ) = roundEven (x * 10 ^ d) := by
    rw [Nat.cast_natAbs, abs_of_nonneg hround]
  rw [hcast]

end Binary64
end PamoRxpBench
