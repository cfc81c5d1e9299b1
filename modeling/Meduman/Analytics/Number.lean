import Mathlib.Data.Nat.Log
import Meduman.Model.Analytics

/-!
# Counts as floating point numbers

* **`toNumber_mono`** : the order of counts survives
* `toNumber_exact` : up to `2 ^ 53` a count is exact
-/

set_option autoImplicit false

namespace Meduman.Analytics

variable {ulp n m k : Nat}

theorem le_roundTo_floor : n / ulp * ulp ≤ roundTo ulp n := by
  unfold roundTo
  split
  · exact Nat.mul_le_mul_right _ (Nat.le_succ _)
  · exact Nat.le_refl _

theorem roundTo_le_ceil : roundTo ulp n ≤ (n / ulp + 1) * ulp := by
  unfold roundTo
  split
  · exact Nat.le_refl _
  · exact Nat.mul_le_mul_right _ (Nat.le_succ _)

theorem roundTo_mono (h : n ≤ m) : roundTo ulp n ≤ roundTo ulp m := by
  rcases Nat.lt_or_eq_of_le (Nat.div_le_div_right (c := ulp) h) with hlt | heq
  · calc roundTo ulp n ≤ (n / ulp + 1) * ulp := roundTo_le_ceil
      _ ≤ m / ulp * ulp := Nat.mul_le_mul_right _ hlt
      _ ≤ roundTo ulp m := le_roundTo_floor
  · -- between the same two multiples, what rounds up goes on rounding up
    have hrest : n % ulp ≤ m % ulp := by
      have hn := Nat.div_add_mod n ulp
      have hm := Nat.div_add_mod m ulp
      rw [heq] at hn
      omega
    unfold roundTo
    rw [heq]
    split
    · rename_i hup
      rw [if_pos (by omega)]
    · split
      · exact Nat.mul_le_mul_right _ (Nat.le_succ _)
      · exact Nat.le_refl _

theorem roundTo_mul (hpos : 0 < ulp) : roundTo ulp (k * ulp) = k * ulp := by
  unfold roundTo
  rw [Nat.mul_mod_left, Nat.mul_div_cancel _ hpos, if_neg (by omega)]

theorem two_pow_dvd (n : Nat) {k : Nat} (hk : n.log2 ≤ k) :
    2 ^ k = 2 ^ (k - (n.log2 - 52)) * 2 ^ (n.log2 - 52) := by
  rw [← Nat.pow_add]
  congr 1
  omega

/-- A number is not rounded past the next power of two. -/
theorem toNumber_le_pow : toNumber n ≤ 2 ^ (n.log2 + 1) := by
  rw [toNumber, two_pow_dvd n (Nat.le_succ _), ← roundTo_mul (Nat.two_pow_pos _),
    ← two_pow_dvd n (Nat.le_succ _)]
  exact roundTo_mono (Nat.le_of_lt Nat.lt_log2_self)

/-- Nor past the last one. -/
theorem pow_le_toNumber (hn : n ≠ 0) : 2 ^ n.log2 ≤ toNumber n := by
  rw [toNumber, two_pow_dvd n (Nat.le_refl _), ← roundTo_mul (Nat.two_pow_pos _),
    ← two_pow_dvd n (Nat.le_refl _)]
  exact roundTo_mono (Nat.log2_self_le hn)

/-- **The order of counts survives.** -/
theorem toNumber_mono (h : n ≤ m) : toNumber n ≤ toNumber m := by
  by_cases hm : m = 0
  · obtain rfl : n = m := by omega
    exact Nat.le_refl _
  · rcases Nat.lt_or_ge n.log2 m.log2 with hlt | hge
    · calc toNumber n ≤ 2 ^ (n.log2 + 1) := toNumber_le_pow
        _ ≤ 2 ^ m.log2 := Nat.pow_le_pow_right (by decide) hlt
        _ ≤ toNumber m := pow_le_toNumber hm
    · have heq : n.log2 = m.log2 := by
        by_cases hn : n = 0
        · rw [hn, Nat.log2_zero] at hge
          rw [hn, Nat.log2_zero]
          omega
        · refine Nat.le_antisymm ?_ hge
          rw [Nat.le_log2 hm]
          exact (Nat.log2_self_le hn).trans h
      rw [toNumber, heq, toNumber]
      exact roundTo_mono h

theorem add_mono {a a' b b' : Nat} (ha : a ≤ a') (hb : b ≤ b') : add a b ≤ add a' b' :=
  toNumber_mono (Nat.add_le_add ha hb)

/-- **Up to `2 ^ 53` a count is exact.** -/
theorem toNumber_exact (h : n ≤ 2 ^ 53) : toNumber n = n := by
  rcases Nat.lt_or_eq_of_le h with hlt | rfl
  · have hlog : n.log2 - 52 = 0 := by
      by_cases hn : n = 0
      · rw [hn, Nat.log2_zero]
      · have hlog := (Nat.log2_lt hn).mpr hlt
        omega
    rw [toNumber, hlog]
    simpa using (roundTo_mul (by decide) : roundTo 1 (n * 1) = n * 1)
  · decide

end Meduman.Analytics
