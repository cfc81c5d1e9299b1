import Mathlib.Algebra.Order.Floor.Ring
import Mathlib.Data.Int.Log
import Mathlib.Data.Rat.Floor
import Mathlib.Tactic.FieldSimp
import Mathlib.Tactic.Linarith
import Mathlib.Tactic.NormNum
import Mathlib.Tactic.Positivity
import Mathlib.Tactic.Ring

/-!
# Rounding to a double

The double nearest to a rational: 53 significant bits, ties to even, and no exponent below the least.
The result of an operation on doubles is the exact one, rounded.

* `nearestEven`, `ulp`, `toDouble`, `isFinite` : the rounding
* `toDouble_exact` : what has 53 significant bits is not rounded
* `abs_toDouble_sub_le` : the rounding moves a number by half a unit in the last place
* `isFinite_iff` : where the nearest double is infinite
* `mathRound` : `Math.round` of a double, and where it takes a rounded number to the right integer
-/

set_option autoImplicit false

namespace Double

/-- The nearest integer, of two the even one. -/
def nearestEven (q : ℚ) : ℤ :=
  if q - ⌊q⌋ < 1 / 2 ∨ (q - ⌊q⌋ = 1 / 2 ∧ Even ⌊q⌋) then ⌊q⌋ else ⌊q⌋ + 1

/-- The distance of the doubles about a number. -/
def ulp (x : ℚ) : ℚ := 2 ^ (max (Int.log 2 |x|) (-1022) - 52)

/-- The double nearest to a number, where its exponent is not too large. -/
def toDouble (x : ℚ) : ℚ := nearestEven (x / ulp x) * ulp x

/-- The double is not an infinity. -/
def isFinite (x : ℚ) : Bool := |toDouble x| < 2 ^ 1024

/-- The least number whose nearest double is infinite. -/
def finiteBound : ℚ := 2 ^ 1024 - 2 ^ 970

theorem nearestEven_intCast (n : ℤ) : nearestEven n = n := by
  rw [nearestEven, Int.floor_intCast, sub_self, if_pos (.inl (by norm_num))]

theorem abs_nearestEven_sub_le (q : ℚ) : |(nearestEven q : ℚ) - q| ≤ 1 / 2 := by
  have hle := Int.floor_le q
  have hlt := Int.lt_floor_add_one q
  rw [nearestEven, abs_le]
  split
  · rename_i h
    constructor
    · rcases h with h | ⟨h, -⟩ <;> linarith
    · linarith
  · rename_i h
    rw [not_or, not_lt] at h
    push_cast
    constructor <;> linarith [h.1]

theorem ulp_pos (x : ℚ) : 0 < ulp x := zpow_pos (by norm_num) _

/-- **A number is moved** by at most half a unit in the last place. -/
theorem abs_toDouble_sub_le (x : ℚ) : |toDouble x - x| ≤ ulp x / 2 := by
  have hpos := ulp_pos x
  have hscaled : toDouble x - x = (nearestEven (x / ulp x) - x / ulp x) * ulp x := by
    rw [toDouble, sub_mul, div_mul_cancel₀ _ hpos.ne']
  rw [hscaled, abs_mul, abs_of_pos hpos]
  have hle := mul_le_mul_of_nonneg_right (abs_nearestEven_sub_le (x / ulp x)) hpos.le
  linarith

theorem ulp_le {x : ℚ} {e : ℤ} (hx : |x| < 2 ^ (e + 1)) (he : 0 ≤ e) : ulp x ≤ 2 ^ (e - 52) := by
  refine zpow_le_zpow_right₀ (by norm_num) ?_
  have hlog : Int.log 2 |x| ≤ e := by
    rcases (abs_nonneg x).eq_or_lt with h | h
    · rw [← h, Int.log_zero_right]
      exact he
    · have hlt := (Int.lt_zpow_iff_log_lt (b := 2) one_lt_two h).mp (by exact_mod_cast hx)
      exact Int.lt_add_one_iff.mp hlt
  omega

/-- **What has 53 significant bits** is not rounded. -/
theorem toDouble_exact {k j : ℤ} (hk : |k| < 2 ^ 53) (hj : -1074 ≤ j) :
    toDouble (k * 2 ^ j) = k * 2 ^ j := by
  have htwo : (2 : ℚ) ≠ 0 := by norm_num
  rcases eq_or_ne k 0 with rfl | hne
  · have hzero : nearestEven (0 : ℚ) = 0 := nearestEven_intCast 0
    simp [toDouble, hzero]
  set u := max (Int.log 2 |(k * 2 ^ j : ℚ)|) (-1022) - 52 with hu
  have hunit : ulp (k * 2 ^ j) = 2 ^ u := rfl
  have hpos : (0 : ℚ) < |(k * 2 ^ j : ℚ)| :=
    abs_pos.mpr (mul_ne_zero (Int.cast_ne_zero.mpr hne) (zpow_ne_zero _ htwo))
  have habs : |(k * 2 ^ j : ℚ)| < 2 ^ (53 + j) := by
    rw [abs_mul, abs_of_pos (zpow_pos (by norm_num : (0 : ℚ) < 2) j), zpow_add₀ htwo]
    refine mul_lt_mul_of_pos_right ?_ (zpow_pos (by norm_num) j)
    exact_mod_cast hk
  have hlog : Int.log 2 |(k * 2 ^ j : ℚ)| < 53 + j :=
    (Int.lt_zpow_iff_log_lt (b := 2) one_lt_two hpos).mp (by exact_mod_cast habs)
  -- the number is a multiple of the unit in its last place
  have hle : u ≤ j := by omega
  obtain ⟨n, hn⟩ := Int.eq_ofNat_of_zero_le (sub_nonneg.mpr hle)
  have hscaled : (k * 2 ^ j : ℚ) / 2 ^ u = ((k * 2 ^ n : ℤ) : ℚ) := by
    rw [mul_div_assoc, ← zpow_sub₀ htwo, hn]
    push_cast
    rfl
  rw [toDouble, hunit, hscaled, nearestEven_intCast, ← hscaled,
    div_mul_cancel₀ _ (zpow_ne_zero _ htwo)]

/-- An integer below 2 to the 53 is not rounded. -/
theorem toDouble_intCast {n : ℤ} (h : |n| < 2 ^ 53) : toDouble n = n := by
  have hexact := toDouble_exact h (by norm_num : (-1074 : ℤ) ≤ 0)
  rwa [zpow_zero, mul_one] at hexact

/-! ## Infinities -/

theorem floor_le_nearestEven (q : ℚ) : ⌊q⌋ ≤ nearestEven q := by
  rw [nearestEven]
  split
  · exact le_rfl
  · exact Int.le_add_one le_rfl

/-- What is rounded up to an even number. -/
theorem nearestEven_lt_iff {q : ℚ} {n : ℤ} (hn : Even n) (hq : q < n) :
    nearestEven q < n ↔ q < n - 1 / 2 := by
  have hfloor : ⌊q⌋ < n := Int.floor_lt.mpr hq
  have hle := Int.floor_le q
  have hlt := Int.lt_floor_add_one q
  rcases (Int.le_sub_one_of_lt hfloor).eq_or_lt with hlast | hbefore
  · -- the last number before it is odd
    have hcast : (⌊q⌋ : ℚ) = n - 1 := by rw [hlast]; push_cast; rfl
    have hodd : ¬ Even ⌊q⌋ := by
      rw [hlast, Int.not_even_iff_odd]
      exact hn.sub_odd odd_one
    rw [nearestEven]
    constructor
    · intro h
      split at h
      · rename_i hlow
        rcases hlow with hlow | ⟨-, heven⟩
        · linarith
        · exact absurd heven hodd
      · omega
    · intro h
      rw [if_pos (.inl (by linarith))]
      exact hfloor
  · have hcast : (⌊q⌋ : ℚ) ≤ n - 2 := by
      have hint : ⌊q⌋ ≤ n - 2 := by omega
      exact_mod_cast hint
    refine iff_of_true ?_ (by linarith)
    rw [nearestEven]
    split <;> omega

/-- Between two powers, the unit in the last place is that of the lower one. -/
theorem ulp_eq {x : ℚ} {e : ℤ} (hlow : 2 ^ e ≤ x) (hhigh : x < 2 ^ (e + 1)) (he : 0 ≤ e) :
    ulp x = 2 ^ (e - 52) := by
  have hpos : (0 : ℚ) < 2 ^ e := zpow_pos (by norm_num) e
  have hx : 0 < x := hpos.trans_le hlow
  have hlog : Int.log 2 x = e := by
    refine le_antisymm ?_ ((Int.zpow_le_iff_le_log (b := 2) one_lt_two hx).mp (by exact_mod_cast hlow))
    exact Int.lt_add_one_iff.mp ((Int.lt_zpow_iff_log_lt (b := 2) one_lt_two hx).mp (by exact_mod_cast hhigh))
  rw [ulp, abs_of_pos hx, hlog, max_eq_left (by omega)]

/-- A large number is not rounded below its power. -/
theorem le_toDouble {x : ℚ} {e : ℤ} (hlow : 2 ^ e ≤ x) (hhigh : x < 2 ^ (e + 1)) (he : 52 ≤ e) :
    2 ^ e ≤ toDouble x := by
  have hunit : (0 : ℚ) < 2 ^ (e - 52) := zpow_pos (by norm_num) _
  have hpower : (2 : ℚ) ^ e = 2 ^ 52 * 2 ^ (e - 52) := by
    rw [show ((2 : ℚ) ^ 52) = 2 ^ (52 : ℤ) from rfl, ← zpow_add₀ (by norm_num), add_sub_cancel]
  have hscaled : ((2 ^ 52 : ℤ) : ℚ) ≤ x / 2 ^ (e - 52) := by
    rw [le_div_iff₀ hunit, Int.cast_pow, Int.cast_ofNat, ← hpower]
    exact hlow
  have hfloor : (2 ^ 52 : ℤ) ≤ nearestEven (x / 2 ^ (e - 52)) :=
    (Int.le_floor.mpr hscaled).trans (floor_le_nearestEven _)
  rw [toDouble, ulp_eq hlow hhigh (by omega), hpower]
  exact mul_le_mul_of_nonneg_right (by exact_mod_cast hfloor) hunit.le

/-- **What is not finite** is what is rounded to a power that no double has. -/
theorem isFinite_iff {x : ℚ} (hx : 0 ≤ x) : isFinite x = true ↔ x < finiteBound := by
  have htwo : (2 : ℚ) ≠ 0 := by norm_num
  have htop : (2 : ℚ) ^ 1024 = 2 ^ (1024 : ℤ) := rfl
  -- in units of the last place of the largest doubles
  have hlow : (2 : ℚ) ^ (1023 : ℤ) = 2 ^ 52 * 2 ^ (971 : ℤ) := by
    rw [show ((2 : ℚ) ^ 52) = 2 ^ (52 : ℤ) from rfl, ← zpow_add₀ htwo]
    rfl
  have hhigh : (2 : ℚ) ^ (1024 : ℤ) = 2 ^ 53 * 2 ^ (971 : ℤ) := by
    rw [show ((2 : ℚ) ^ 53) = 2 ^ (53 : ℤ) from rfl, ← zpow_add₀ htwo]
    rfl
  have hbound : finiteBound = (2 ^ 53 - 1 / 2) * 2 ^ (971 : ℤ) := by
    have hhalf : (2 : ℚ) ^ (971 : ℤ) = 2 ^ 970 * 2 := zpow_add_one₀ htwo 970
    rw [finiteBound, htop, hhigh, sub_mul, hhalf, one_div_mul_eq_div, mul_div_cancel_right₀ _ htwo]
  have hunit : (0 : ℚ) < 2 ^ (971 : ℤ) := zpow_pos (by norm_num) _
  have hnonneg : 0 ≤ toDouble x := by
    refine mul_nonneg ?_ (ulp_pos x).le
    have hfloor : 0 ≤ ⌊x / ulp x⌋ := Int.floor_nonneg.mpr (div_nonneg hx (ulp_pos x).le)
    exact_mod_cast hfloor.trans (floor_le_nearestEven _)
  have hlast {e : ℤ} (he : e = 1023) : (2 : ℚ) ^ (e - 52) = 2 ^ (971 : ℤ) := by rw [he]; rfl
  rw [isFinite, decide_eq_true_iff, abs_of_nonneg hnonneg, htop, hbound]
  by_cases hsmall : x < 2 ^ (1023 : ℤ)
  · -- far below
    have hless : x < 2 ^ ((1023 : ℤ) + 1) :=
      hsmall.trans_le (zpow_le_zpow_right₀ (by norm_num) (by norm_num))
    have hulp : ulp x ≤ 2 ^ (971 : ℤ) :=
      (ulp_le (by rw [abs_of_nonneg hx]; exact hless) (by norm_num)).trans_eq (hlast rfl)
    have hmove := (abs_le.mp (abs_toDouble_sub_le x)).2
    rw [hlow] at hsmall
    rw [hhigh]
    generalize (2 : ℚ) ^ (971 : ℤ) = unit at *
    constructor <;> intro _ <;> linarith
  · rw [not_lt] at hsmall
    by_cases hlarge : x < 2 ^ (1024 : ℤ)
    · -- the largest doubles
      have hcast : ((2 ^ 53 : ℤ) : ℚ) = 2 ^ 53 := by rw [Int.cast_pow, Int.cast_ofNat]
      have hq : x / 2 ^ (971 : ℤ) < ((2 ^ 53 : ℤ) : ℚ) := by
        rw [div_lt_iff₀ hunit, hcast, ← hhigh]
        exact hlarge
      have hround := nearestEven_lt_iff (by decide) hq
      rw [hcast] at hround
      rw [toDouble, ulp_eq hsmall hlarge (by norm_num), hlast rfl, hhigh, mul_lt_mul_iff_left₀ hunit,
        ← div_lt_iff₀ hunit, ← hround, ← hcast, Int.cast_lt]
    · rw [not_lt] at hlarge
      have hpos : 0 < x := (zpow_pos (by norm_num) _).trans_le hlarge
      have hlog : 1024 ≤ Int.log 2 x :=
        (Int.zpow_le_iff_le_log (b := 2) one_lt_two hpos).mp (by exact_mod_cast hlarge)
      have hle := le_toDouble (x := x) (e := Int.log 2 x)
        (by exact_mod_cast Int.zpow_log_le_self one_lt_two hpos)
        (by exact_mod_cast Int.lt_zpow_succ_log_self one_lt_two x) (by omega)
      have hpower : (2 : ℚ) ^ (1024 : ℤ) ≤ 2 ^ Int.log 2 x := zpow_le_zpow_right₀ (by norm_num) hlog
      refine iff_of_false (not_lt.mpr (hpower.trans hle)) (not_lt.mpr ?_)
      rw [hhigh] at hlarge
      generalize (2 : ℚ) ^ (971 : ℤ) = unit at *
      linarith

/-! ## `Math.round` -/

/-- `Math.round`, halves upwards. -/
def mathRound (x : ℚ) : ℤ := ⌊x + 1 / 2⌋

/-- A number less than a half from an integer. -/
theorem mathRound_eq {x : ℚ} {n : ℤ} (h : |x - n| < 1 / 2) : mathRound x = n := by
  obtain ⟨hlow, hhigh⟩ := abs_lt.mp h
  rw [mathRound, Int.floor_eq_iff]
  constructor <;> linarith

/-- **A rounded quotient** is rounded to the integer that the exact one is, halves upwards, where
doubles about it are closer than the quotients are. -/
theorem mathRound_div {n d e : ℤ} (hd : 0 < d) (hn : |(n / d : ℚ)| < 2 ^ (e + 1)) (he : 0 ≤ e)
    (he' : e ≤ 50) (hulp : (2 : ℚ) ^ (e - 52) * d < 1) :
    mathRound (toDouble (n / d)) = (2 * n + d) / (2 * d) := by
  have hdq : (0 : ℚ) < d := by exact_mod_cast hd
  set m := (2 * n + d) / (2 * d) with hm
  have hlow : 2 * d * m ≤ 2 * n + d := Int.mul_ediv_self_le (by omega)
  have hhigh : 2 * n + d < 2 * d * m + 2 * d := by
    have h := Int.lt_ediv_add_one_mul_self (2 * n + d) (by omega : 0 < 2 * d)
    rw [← hm] at h
    linarith
  have hmove : |toDouble (n / d) - n / d| * (2 * d) < 1 := by
    have hle := abs_toDouble_sub_le (n / d : ℚ)
    have hu := ulp_le hn he
    nlinarith
  obtain ⟨hdown, hup⟩ := abs_lt.mp (by
    rwa [← abs_of_pos (by linarith : (0 : ℚ) < 2 * d), ← abs_mul] at hmove)
  have hq : (n / d : ℚ) * d = n := div_mul_cancel₀ _ hdq.ne'
  rw [mathRound, Int.floor_eq_iff]
  rcases hlow.eq_or_lt with htie | hlow
  · -- a half, which is a double
    have hhalf : (n / d : ℚ) = ((2 * m - 1 : ℤ) : ℚ) * 2 ^ (-1 : ℤ) := by
      have htie' : (2 * d * m : ℚ) = 2 * n + d := by exact_mod_cast htie
      rw [zpow_neg_one, div_eq_iff hdq.ne']
      push_cast
      linarith
    have hbits : |2 * m - 1| < 2 ^ 53 := by
      rw [hhalf, abs_mul, abs_of_pos (by positivity : (0 : ℚ) < 2 ^ (-1 : ℤ)), zpow_neg_one] at hn
      have hpow : (2 : ℚ) ^ (e + 1) ≤ 2 ^ (51 : ℤ) := zpow_le_zpow_right₀ (by norm_num) (by omega)
      have hlt : ((|2 * m - 1| : ℤ) : ℚ) < 2 ^ 53 := by
        push_cast at hn ⊢
        norm_num at hpow ⊢
        linarith
      exact_mod_cast hlt
    rw [hhalf, toDouble_exact hbits (by norm_num), zpow_neg_one]
    push_cast
    constructor <;> linarith
  · have hlow' : (2 * d * m + 1 : ℚ) ≤ 2 * n + d := by exact_mod_cast hlow
    have hhigh' : (2 * n + d + 1 : ℚ) ≤ 2 * d * m + 2 * d := by exact_mod_cast hhigh
    constructor <;> nlinarith

end Double
