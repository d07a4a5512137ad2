/-
The shortest decimal of a double rounds to the double. Every grid point that the search accepts lies in
the double's interval, and the number written out in full is the double itself; so does every decimal of
the same value round to it, and the bounds that spare the reader large powers never cut it off.
-/
import StackLang.Proofs.Rounding

namespace StackLang.Decimal

open Binary

/-- The number that a decimal stands for. -/
def value (d : Decimal) : ℚ := d.coefficient * 10 ^ d.exponent

variable {m : Nat} {q : Int}

/-! ## The search -/

/-- In quarters of `2 ^ q`, the multiples of `10 ^ g` are those of `step / den`. -/
theorem grid_scale (n : Nat) (q g : Int) :
    (((n * (pow10 g.toNat * pow2 (2 - q).toNat) : Nat) : ℚ) / ((pow10 (-g).toNat * pow2 (q - 2).toNat : Nat) : ℚ)) =
      4 * (n * 10 ^ g / 2 ^ q) := by
  have h2 : (2 : ℚ) ^ (2 - q) = 4 / 2 ^ q := by
    rw [zpow_sub₀ (by norm_num)]
    norm_num
  have hneg : -(2 - q) = q - 2 := by ring
  rw [zpow_eq_div (by norm_num) (2 - q), hneg, div_eq_div_iff (by positivity) (two_zpow_pos q).ne'] at h2
  rw [zpow_eq_div (by norm_num : (10 : ℚ) ≠ 0) g]
  simp only [pow2_eq, pow10_eq]
  push_cast
  have := (two_zpow_pos q).ne'
  field_simp
  rw [mul_assoc, h2]
  ring

theorem gridPoint?_mem {g : Int} {n : Nat} (h : gridPoint? m q g = some n) :
    (Interval.around m q).Mem (4 * (n * 10 ^ g / 2 ^ q)) := by
  have hden : 0 < pow10 (-g).toNat * pow2 (q - 2).toNat :=
    Nat.mul_pos (Nat.pow_pos (by norm_num)) (Nat.pow_pos (by norm_num))
  rw [← grid_scale, ← Interval.holds_iff hden]
  unfold gridPoint? at h
  dsimp only at h
  split at h
  · rename_i hlow hhigh
    cases h
    split
    · exact hlow
    · exact hhigh
  · rename_i hlow _
    cases h; exact hlow
  · rename_i _ hhigh
    cases h; exact hhigh
  · cases h

/-- Written out in full, a double keeps its value. -/
theorem value_full (m : Nat) (q : Int) :
    value ⟨m * pow2 q.toNat * (pow10 (-q).toNat / pow2 (-q).toNat), min q 0⟩ = m * 2 ^ q := by
  have hfive : pow10 (-q).toNat / pow2 (-q).toNat = 5 ^ (-q).toNat := by
    rw [pow10_eq, pow2_eq, show (10 : Nat) = 5 * 2 from rfl, Nat.mul_pow, Nat.mul_div_cancel _ (Nat.two_pow_pos _)]
  have hmin : min q 0 = -((-q).toNat : Int) := by omega
  unfold value
  dsimp only
  rw [hfive, hmin, zpow_neg, zpow_natCast, zpow_eq_div (by norm_num) q, pow2_eq]
  push_cast
  rw [show (10 : ℚ) = 5 * 2 by norm_num, mul_pow]
  field_simp

theorem searchGrids_mem (hm : 0 < m) (fuel : Nat) (g : Int) :
    (Interval.around m q).Mem (4 * ((searchGrids m q fuel g).value / 2 ^ q)) := by
  induction fuel generalizing g with
  | zero =>
    rw [searchGrids, value_full, mul_div_assoc, div_self (two_zpow_pos q).ne', mul_one]
    exact Interval.mem_around_self hm
  | succ fuel ih =>
    rw [searchGrids]
    split
    · rename_i n hn
      exact gridPoint?_mem hn
    · exact ih (g - 1)

/-- The shortest decimal lies in the interval of its double. -/
theorem shortest_mem (hm : 0 < m) : (Interval.around m q).Mem (4 * ((shortest m q).value / 2 ^ q)) :=
  searchGrids_mem hm 20 (coarsestGrid m q)

/-! ## The double of a decimal -/

/-- The value as a ratio of natural numbers. -/
theorem ratio_eq_value (d : Decimal) :
    ((d.coefficient * pow10 d.exponent.toNat : Nat) : ℚ) / (pow10 (-d.exponent).toNat : Nat) = d.value := by
  rw [value, zpow_eq_div (by norm_num) d.exponent, pow10_eq, pow10_eq]
  push_cast
  ring

theorem coefficient_lt (d : Decimal) : d.coefficient < 10 ^ d.length :=
  (Nat.length_toDigits_le_iff (by norm_num) Nat.length_toDigits_pos).1 (le_refl d.length)

theorem le_coefficient {d : Decimal} (h : 0 < d.coefficient) : 10 ^ (d.length - 1) ≤ d.coefficient := by
  rcases Nat.eq_zero_or_pos (d.length - 1) with h0 | hpos
  · rw [h0]; exact h
  · by_contra hlt
    have hle := (Nat.length_toDigits_le_iff (b := 10) (by norm_num) hpos).2 (not_le.1 hlt)
    unfold length at hpos hle
    omega

theorem value_lt (d : Decimal) : d.value < 10 ^ ((d.length : Int) + d.exponent) := by
  rw [zpow_add₀ (by norm_num), zpow_natCast, value]
  have : (d.coefficient : ℚ) < 10 ^ d.length := by exact_mod_cast coefficient_lt d
  exact mul_lt_mul_of_pos_right this (ten_zpow_pos _)

theorem le_value {d : Decimal} (h : 0 < d.coefficient) : (10 : ℚ) ^ ((d.length : Int) + d.exponent - 1) ≤ d.value := by
  have hlen : 0 < d.length := Nat.length_toDigits_pos
  have hsplit : (d.length : Int) + d.exponent - 1 = ((d.length - 1 : Nat) : Int) + d.exponent := by omega
  rw [hsplit, zpow_add₀ (by norm_num), zpow_natCast, value]
  have : (10 : ℚ) ^ (d.length - 1) ≤ d.coefficient := by exact_mod_cast le_coefficient h
  exact mul_le_mul_of_nonneg_right this (ten_zpow_pos _).le

theorem two_pow_1075_lt : 2 ^ 1075 < 10 ^ 324 := by decide +kernel

theorem two_pow_1024_lt : 2 ^ 1024 < 10 ^ 309 := by decide +kernel

/-- What lies in the interval of a double is not too large for a double. -/
theorem lt_of_mem (hc : Canonical m q) {r : ℚ} (h : (Interval.around m q).Mem (4 * (r / 2 ^ q))) :
    r < 10 ^ (309 : Int) := by
  have hp := two_zpow_pos q
  have hm53 : (m : ℚ) + 1 ≤ 2 ^ 53 := by exact_mod_cast hc.lt
  have hhigh := (Interval.nearest_of_mem h).le.2
  rw [div_le_iff₀ hp] at hhigh
  calc r ≤ (m + 1 / 2) * 2 ^ q := hhigh
    _ ≤ 2 ^ 53 * 2 ^ q := mul_le_mul_of_nonneg_right (by linarith) hp.le
    _ ≤ 2 ^ 53 * 2 ^ (971 : Int) := by
        have := zpow_le_zpow_right₀ (by norm_num : (1 : ℚ) ≤ 2) hc.most
        linarith
    _ = 2 ^ (1024 : Int) := two_zpow_mul 53 971
    _ < 10 ^ (309 : Int) := by exact_mod_cast two_pow_1024_lt

/-- What lies in the interval of a double but is too small for one is in the interval of zero. -/
theorem encode_eq_zero_of_mem (hc : Canonical m q) {r : ℚ} (h : (Interval.around m q).Mem (4 * (r / 2 ^ q)))
    (hr : r < 10 ^ (-324 : Int)) : encode m q = 0 := by
  have hp := two_zpow_pos q
  have hleast : (-1074 : Int) ≤ q := hc.least
  have hpow : (10 : ℚ) ^ (-324 : Int) < 2 ^ (-1075 : Int) := by
    rw [zpow_neg, zpow_neg, inv_lt_inv₀ (ten_zpow_pos _) (two_zpow_pos _)]
    exact_mod_cast two_pow_1075_lt
  have hhalf : r / 2 ^ q < 1 / 2 := by
    rw [div_lt_iff₀ hp]
    calc r < 2 ^ (-1075 : Int) := hr.trans hpow
      _ = 1 / 2 * 2 ^ (-1074 : Int) := by rw [show (-1075 : Int) = -1 + -1074 from rfl, ← two_zpow_mul]; norm_num
      _ ≤ 1 / 2 * 2 ^ q := by
          have := zpow_le_zpow_right₀ (by norm_num : (1 : ℚ) ≤ 2) hleast
          linarith
  obtain rfl : m = 0 := by
    have : (m : ℚ) < 1 := by linarith [(Interval.nearest_of_mem h).le.1]
    exact Nat.lt_one_iff.1 (by exact_mod_cast this)
  rw [hc.eq_minExponent, encode_zero]

/-- Every decimal in the interval of a double is read as that double. -/
theorem toFloat_of_mem (hc : Canonical m q) {d : Decimal}
    (h : (Interval.around m q).Mem (4 * (d.value / 2 ^ q))) (negative : Bool) :
    d.toFloat negative = Float.ofBits (UInt64.ofNat (encode m q + if negative then pow2 63 else 0)) := by
  have hzero : d.value < 10 ^ (-324 : Int) →
      ofRatio negative 0 1 = Float.ofBits (UInt64.ofNat (encode m q + if negative then pow2 63 else 0)) := by
    intro hr
    rw [encode_eq_zero_of_mem hc h hr]
    rfl
  unfold toFloat
  split
  · rename_i h0
    apply hzero
    rw [value, h0, Nat.cast_zero, zero_mul]
    exact ten_zpow_pos _
  · rename_i hcoef
    split
    · -- a decimal that large lies in no interval
      rename_i hge
      have hle : (10 : ℚ) ^ (309 : Int) ≤ 10 ^ ((d.length : Int) + d.exponent - 1) :=
        zpow_le_zpow_right₀ (by norm_num) (by omega)
      have hvalue := le_value (Nat.pos_of_ne_zero hcoef)
      have hlt := lt_of_mem hc h
      linarith
    · split
      · rename_i hle
        exact hzero ((value_lt d).trans_le (zpow_le_zpow_right₀ (by norm_num) hle))
      · have hden : 0 < pow10 (-d.exponent).toNat := Nat.pow_pos (by norm_num)
        unfold ofRatio
        rw [magnitudeBits_of_mem hc hden (by rw [ratio_eq_value]; exact h)]

end StackLang.Decimal
