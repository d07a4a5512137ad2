/-
Rounding a ratio to a double. Every real number between the midpoints on both sides of a double `m · 2 ^ q`
rounds to it, the midpoints themselves when `m` is even. Below a power of two the neighbours are twice as
dense: there the ratio is rounded in the lower binade, and the carry moves on to the power of two.
-/
import Mathlib.Algebra.Order.Field.Power
import Mathlib.Data.Rat.Cast.Order
import Mathlib.Tactic.FieldSimp
import Mathlib.Tactic.Linarith
import Mathlib.Tactic.NormNum
import Mathlib.Tactic.Positivity
import Mathlib.Tactic.Ring
import StackLang.Decimal.Shortest

namespace StackLang

/-! ## Powers -/

theorem pow2_eq (n : Nat) : pow2 n = 2 ^ n := rfl

theorem pow10_eq (n : Nat) : pow10 n = 10 ^ n := rfl

/-- A power with any exponent is a ratio of two powers with natural exponents, one of which is 1. -/
theorem zpow_eq_div {b : ℚ} (hb : b ≠ 0) (e : Int) : b ^ e = b ^ e.toNat / b ^ (-e).toNat := by
  have he : e = (e.toNat : Int) - ((-e).toNat : Int) := by omega
  conv_lhs => rw [he]
  rw [zpow_sub₀ hb, zpow_natCast, zpow_natCast]

theorem two_zpow_pos (e : Int) : (0 : ℚ) < 2 ^ e := zpow_pos (by norm_num) e

theorem ten_zpow_pos (e : Int) : (0 : ℚ) < 10 ^ e := zpow_pos (by norm_num) e

theorem two_zpow_lt_iff {a b : Int} : (2 : ℚ) ^ a < 2 ^ b ↔ a < b := zpow_lt_zpow_iff_right₀ (by norm_num)

theorem two_zpow_mul (a b : Int) : (2 : ℚ) ^ a * 2 ^ b = 2 ^ (a + b) := (zpow_add₀ (by norm_num) a b).symm

namespace Binary

/-! ## The nearest integer -/

/-- Whether `m` is the integer nearest to `x`; of two equally near ones it is the even one. -/
def Nearest (m : Nat) (x : ℚ) : Prop :=
  if m % 2 = 0 then (m : ℚ) - 1 / 2 ≤ x ∧ x ≤ m + 1 / 2 else (m : ℚ) - 1 / 2 < x ∧ x < m + 1 / 2

theorem Nearest.le {m : Nat} {x : ℚ} (h : Nearest m x) : (m : ℚ) - 1 / 2 ≤ x ∧ x ≤ m + 1 / 2 := by
  unfold Nearest at h
  split at h
  · exact h
  · exact ⟨h.1.le, h.2.le⟩

theorem Nearest.lt {m : Nat} {x : ℚ} (h : Nearest m x) (hm : m % 2 = 1) : (m : ℚ) - 1 / 2 < x ∧ x < m + 1 / 2 := by
  unfold Nearest at h
  rwa [if_neg (by omega)] at h

theorem roundHalfEven_eq {num den m : Nat} (hd : 0 < den) (h : Nearest m (num / den)) : roundHalfEven num den = m := by
  have hdq : (0 : ℚ) < den := by exact_mod_cast hd
  -- the bounds without division
  have hlow : 2 * m * den ≤ 2 * num + den := by
    have hx := h.le.1
    rw [le_div_iff₀ hdq] at hx
    have : (2 * m * den : ℚ) ≤ 2 * num + den := by linarith
    exact_mod_cast this
  have hhigh : 2 * num ≤ 2 * m * den + den := by
    have hx := h.le.2
    rw [div_le_iff₀ hdq] at hx
    have : (2 * num : ℚ) ≤ 2 * m * den + den := by linarith
    exact_mod_cast this
  have hodd : m % 2 = 1 → 2 * m * den < 2 * num + den ∧ 2 * num < 2 * m * den + den := by
    intro hm
    obtain ⟨h1, h2⟩ := h.lt hm
    rw [lt_div_iff₀ hdq] at h1
    rw [div_lt_iff₀ hdq] at h2
    constructor
    · have : (2 * m * den : ℚ) < 2 * num + den := by linarith
      exact_mod_cast this
    · have : (2 * num : ℚ) < 2 * m * den + den := by linarith
      exact_mod_cast this
  have hsplit := Nat.div_add_mod num den
  have hrest := Nat.mod_lt num hd
  unfold roundHalfEven
  dsimp only
  generalize num / den = floor at hsplit ⊢
  generalize num % den = rest at hsplit hrest ⊢
  -- `m` is the floor or the integer above it
  have hle : floor ≤ m := by
    by_contra hlt
    have : (m + 1) * den ≤ floor * den := Nat.mul_le_mul_right den (by omega)
    nlinarith
  have hge : m ≤ floor + 1 := by
    by_contra hlt
    have : (floor + 2) * den ≤ m * den := Nat.mul_le_mul_right den (by omega)
    nlinarith
  rcases (by omega : m = floor ∨ m = floor + 1) with rfl | rfl
  · rw [if_pos]
    rcases Nat.lt_or_ge (2 * rest) den with hlt | hge'
    · exact Or.inl hlt
    · have heq : 2 * rest = den := by nlinarith
      refine Or.inr ⟨heq, ?_⟩
      by_contra hpar
      have := (hodd (by omega)).2
      nlinarith
  · rw [if_neg]
    rintro (hlt | ⟨heq, hpar⟩)
    · nlinarith
    · have := (hodd (by omega)).1
      nlinarith

theorem roundAt_eq {num den m : Nat} {q : Int} (hd : 0 < den) (h : Nearest m (num / den / 2 ^ q)) :
    roundAt num den q = m := by
  unfold roundAt
  apply roundHalfEven_eq (Nat.mul_pos hd (Nat.two_pow_pos _))
  convert h using 1
  rw [zpow_eq_div (by norm_num) q]
  simp only [pow2_eq]
  push_cast
  field_simp

/-! ## The binade of a ratio -/

section Binade

variable {num den : Nat} (hn : 0 < num) (hd : 0 < den)
include hn hd

theorem floorLog2_bounds :
    (2 : ℚ) ^ floorLog2 num den ≤ num / den ∧ (num / den : ℚ) < 2 ^ (floorLog2 num den + 1) := by
  have hdq : (0 : ℚ) < den := by exact_mod_cast hd
  have n1 : ((2 : ℚ) ^ (num.log2 : Int)) ≤ num := by
    rw [zpow_natCast]; exact_mod_cast Nat.log2_self_le (by omega : num ≠ 0)
  have n2 : (num : ℚ) < 2 ^ ((num.log2 : Int) + 1) := by
    have : num < 2 ^ (num.log2 + 1) := Nat.lt_log2_self
    exact_mod_cast this
  have d1 : ((2 : ℚ) ^ (den.log2 : Int)) ≤ den := by
    rw [zpow_natCast]; exact_mod_cast Nat.log2_self_le (by omega : den ≠ 0)
  have d2 : (den : ℚ) < 2 ^ ((den.log2 : Int) + 1) := by
    have : den < 2 ^ (den.log2 + 1) := Nat.lt_log2_self
    exact_mod_cast this
  have hupper : (num / den : ℚ) < 2 ^ ((num.log2 : Int) - den.log2 + 1) := by
    rw [div_lt_iff₀ hdq]
    calc (num : ℚ) < 2 ^ ((num.log2 : Int) + 1) := n2
      _ = 2 ^ ((num.log2 : Int) - den.log2 + 1) * 2 ^ (den.log2 : Int) := by rw [two_zpow_mul]; congr 1; ring
      _ ≤ 2 ^ ((num.log2 : Int) - den.log2 + 1) * den := mul_le_mul_of_nonneg_left d1 (two_zpow_pos _).le
  have hlower : (2 : ℚ) ^ ((num.log2 : Int) - den.log2 - 1) ≤ num / den := by
    rw [le_div_iff₀ hdq]
    calc (2 : ℚ) ^ ((num.log2 : Int) - den.log2 - 1) * den
        ≤ 2 ^ ((num.log2 : Int) - den.log2 - 1) * 2 ^ ((den.log2 : Int) + 1) :=
          mul_le_mul_of_nonneg_left d2.le (two_zpow_pos _).le
      _ = 2 ^ (num.log2 : Int) := by rw [two_zpow_mul]; congr 1; ring
      _ ≤ num := n1
  unfold floorLog2
  dsimp only
  generalize (num.log2 : Int) - den.log2 = e at hupper hlower
  -- the logarithms are right or one too large, and the comparison decides which
  have htest : den * pow2 e.toNat ≤ num * pow2 (-e).toNat ↔ (2 : ℚ) ^ e ≤ num / den := by
    rw [zpow_eq_div (by norm_num) e, div_le_div_iff₀ (by positivity) hdq, pow2_eq, pow2_eq, mul_comm]
    exact_mod_cast Iff.rfl
  split
  · rename_i h
    exact ⟨htest.1 h, hupper⟩
  · rename_i h
    rw [htest, not_le] at h
    exact ⟨hlower, by rwa [sub_add_cancel]⟩

theorem floorLog2_lt {e : Int} (h : (num / den : ℚ) < 2 ^ e) : floorLog2 num den < e := by
  have hlow := (floorLog2_bounds hn hd).1
  exact two_zpow_lt_iff.1 (lt_of_le_of_lt hlow h)

theorem le_floorLog2 {e : Int} (h : (2 : ℚ) ^ e ≤ num / den) : e ≤ floorLog2 num den := by
  have hhigh := (floorLog2_bounds hn hd).2
  have := two_zpow_lt_iff.1 (lt_of_le_of_lt h hhigh)
  omega

end Binade

end Binary

/-! ## The interval of a double -/

namespace Decimal.Interval

open Binary

/-- Whether a number lies in the interval, its ends included when it is closed. -/
def Mem (i : Interval) (x : ℚ) : Prop :=
  if i.closed then (i.low : ℚ) ≤ x ∧ x ≤ i.high else (i.low : ℚ) < x ∧ x < i.high

theorem holds_iff {i : Interval} {num den : Nat} (hd : 0 < den) : i.holds num den = true ↔ i.Mem (num / den) := by
  have hdq : (0 : ℚ) < den := by exact_mod_cast hd
  unfold holds Mem
  split
  · rw [le_div_iff₀ hdq, div_le_iff₀ hdq, Bool.and_eq_true, decide_eq_true_eq, decide_eq_true_eq]
    exact_mod_cast Iff.rfl
  · rw [lt_div_iff₀ hdq, div_lt_iff₀ hdq, Bool.and_eq_true, decide_eq_true_eq, decide_eq_true_eq]
    exact_mod_cast Iff.rfl

theorem Mem.bounds {i : Interval} {x : ℚ} (h : i.Mem x) : (i.low : ℚ) ≤ x ∧ x ≤ i.high := by
  unfold Mem at h
  split at h
  · exact h
  · exact ⟨h.1.le, h.2.le⟩

theorem le_low_around (m : Nat) (q : Int) : 4 * (m : ℚ) - 2 ≤ (around m q).low := by
  have hle : 4 * m ≤ (around m q).low + 2 := by
    unfold around
    dsimp only
    split <;> omega
  have : 4 * (m : ℚ) ≤ (around m q).low + 2 := by exact_mod_cast hle
  linarith

theorem high_around (m : Nat) (q : Int) : ((around m q).high : ℚ) = 4 * m + 2 := by
  unfold around
  push_cast
  rfl

section Around

variable {m : Nat} {q : Int}

theorem low_around_le (hm : 0 < m) : ((around m q).low : ℚ) ≤ 4 * m - 1 := by
  have hle : (around m q).low + 1 ≤ 4 * m := by
    unfold around
    dsimp only
    split <;> omega
  have : ((around m q).low : ℚ) + 1 ≤ 4 * m := by exact_mod_cast hle
  linarith

/-- The double itself lies in its interval. -/
theorem mem_around_self (hm : 0 < m) : (around m q).Mem (4 * m) := by
  have hlow := low_around_le (q := q) hm
  have hhigh := high_around m q
  unfold Mem
  split
  · constructor <;> linarith
  · constructor <;> linarith

/-- In the interval, the significand is the nearest integer. -/
theorem nearest_of_mem {x : ℚ} (h : (around m q).Mem (4 * x)) : Nearest m x := by
  have hlow := le_low_around m q
  have hhigh := high_around m q
  have hclosed : (around m q).closed = decide (m % 2 = 0) := rfl
  unfold Mem at h
  unfold Nearest
  by_cases hpar : m % 2 = 0
  · rw [hclosed, if_pos (decide_eq_true hpar)] at h
    rw [if_pos hpar]
    constructor <;> linarith [h.1, h.2]
  · rw [hclosed, if_neg (by simpa using hpar)] at h
    rw [if_neg hpar]
    constructor <;> linarith [h.1, h.2]

end Around

/-- Below a power of two the interval is half as wide. -/
theorem le_of_mem_binade {q : Int} (hq : q ≠ minExponent) {x : ℚ} (h : (around (2 ^ 52) q).Mem (4 * x)) :
    (2 : ℚ) ^ 52 - 1 / 4 ≤ x := by
  have hlow : ((around (2 ^ 52) q).low : ℚ) = 4 * 2 ^ 52 - 1 := by
    unfold around
    dsimp only
    rw [if_pos ⟨rfl, hq⟩]
    norm_num
  have := h.bounds.1
  rw [hlow] at this
  linarith

end Decimal.Interval

/-! ## Rounding to a double -/

namespace Binary

/-- The significands and exponents of finite doubles: all but the numbers of the lowest binade have 53
binary digits. -/
structure Canonical (m : Nat) (q : Int) : Prop where
  lt : m < 2 ^ 53
  least : minExponent ≤ q
  most : q ≤ 971
  normal : q = minExponent ∨ 2 ^ 52 ≤ m

/-- The bit pattern of `m · 2 ^ q` without its sign. -/
def encode (m : Nat) (q : Int) : Nat := (q - minExponent).toNat * pow2 52 + m

theorem Canonical.encode_lt {m : Nat} {q : Int} (h : Canonical m q) : encode m q < infinityBits := by
  obtain ⟨hlt, hleast, hmost, -⟩ := h
  unfold encode infinityBits
  unfold minExponent at hleast ⊢
  have hq : (q - -1074).toNat ≤ 2045 := by omega
  have hmul : (q - -1074).toNat * pow2 52 ≤ 2045 * pow2 52 := Nat.mul_le_mul_right _ hq
  have hpow : pow2 52 = 2 ^ 52 := rfl
  omega

theorem Canonical.encode_inj {m m' : Nat} {q q' : Int} (h : Canonical m q) (h' : Canonical m' q')
    (heq : encode m q = encode m' q') : m = m' ∧ q = q' := by
  obtain ⟨hlt, hleast, -, hnormal⟩ := h
  obtain ⟨hlt', hleast', -, hnormal'⟩ := h'
  unfold encode at heq
  unfold minExponent at *
  simp only [pow2_eq] at heq
  omega

theorem magnitudeBits_eq {num den k : Nat} {q : Int} (hn : 0 < num)
    (hq : max (floorLog2 num den - 52) minExponent = q) (hr : roundAt num den q = k)
    (hlt : (q - minExponent).toNat * pow2 52 + k < infinityBits) :
    magnitudeBits num den = (q - minExponent).toNat * pow2 52 + k := by
  unfold magnitudeBits
  rw [if_neg (by omega)]
  dsimp only
  rw [hq, hr, min_eq_left hlt.le]

/-- Zero is a double of the lowest binade only. -/
theorem Canonical.eq_minExponent {q : Int} (h : Canonical 0 q) : q = minExponent :=
  h.normal.resolve_right (by norm_num)

theorem encode_zero : encode 0 minExponent = 0 := rfl

/-- Every ratio in the interval of a double rounds to it. -/
theorem magnitudeBits_of_mem {m num den : Nat} {q : Int} (hc : Canonical m q) (hd : 0 < den)
    (h : (Decimal.Interval.around m q).Mem (4 * (num / den / 2 ^ q))) : magnitudeBits num den = encode m q := by
  have hnear := Decimal.Interval.nearest_of_mem h
  obtain ⟨hlow, hhigh⟩ := hnear.le
  have hp := two_zpow_pos q
  have hm53 : (m : ℚ) + 1 ≤ 2 ^ 53 := by exact_mod_cast hc.lt
  rcases Nat.eq_zero_or_pos num with rfl | hn
  · obtain rfl : m = 0 := by
      rw [Nat.cast_zero, zero_div, zero_div] at hlow
      have : (m : ℚ) < 1 := by linarith
      exact Nat.lt_one_iff.1 (by exact_mod_cast this)
    rw [hc.eq_minExponent, encode_zero]
    rfl
  have hlt := hc.encode_lt
  -- bounds of the scaled ratio are bounds of the ratio
  have hupper : (num / den : ℚ) < 2 ^ (53 + q) := by
    rw [← two_zpow_mul, ← div_lt_iff₀ hp]
    calc (num / den / 2 ^ q : ℚ) ≤ m + 1 / 2 := hhigh
      _ < 2 ^ (53 : Int) := by rw [show (2 : ℚ) ^ (53 : Int) = 2 ^ 53 from rfl]; linarith
  by_cases h52 : (2 : ℚ) ^ (52 : Int) ≤ num / den / 2 ^ q
  · -- the ratio lies in the double's own binade
    have hlower : (2 : ℚ) ^ (52 + q) ≤ num / den := by rwa [← two_zpow_mul, ← le_div_iff₀ hp]
    have h1 := le_floorLog2 hn hd hlower
    have h2 := floorLog2_lt hn hd hupper
    have hleast := hc.least
    exact magnitudeBits_eq hn (by omega) (roundAt_eq hd hnear) hlt
  · rw [not_le] at h52
    have h52' : (num / den : ℚ) < 2 ^ (52 + q) := by rwa [← two_zpow_mul, ← div_lt_iff₀ hp]
    have h1 := floorLog2_lt hn hd h52'
    by_cases hq : q = minExponent
    · -- no binade is lower
      exact magnitudeBits_eq hn (by omega) (roundAt_eq hd hnear) hlt
    · -- the ratio lies just below a power of two and is rounded up to it
      obtain rfl : m = 2 ^ 52 := by
        have hge := hc.normal.resolve_left hq
        have hle : m < 2 ^ 52 + 1 := by
          have : (m : ℚ) < 2 ^ 52 + 1 := by
            have : (num / den / 2 ^ q : ℚ) < 2 ^ 52 := h52
            linarith
          exact_mod_cast this
        omega
      have hquarter := Decimal.Interval.le_of_mem_binade hq h
      have hscale : (num / den / 2 ^ (q - 1) : ℚ) = 2 * (num / den / 2 ^ q) := by
        rw [zpow_sub_one₀ (by norm_num)]
        field_simp
      have hlower : (2 : ℚ) ^ (51 + q) ≤ num / den := by
        rw [← two_zpow_mul, ← le_div_iff₀ hp]
        calc (2 : ℚ) ^ (51 : Int) = 2 ^ 51 := rfl
          _ ≤ 2 ^ 52 - 1 / 4 := by norm_num
          _ ≤ num / den / 2 ^ q := hquarter
      have h2 := le_floorLog2 hn hd hlower
      have hnear' : Nearest (2 ^ 53) (num / den / 2 ^ (q - 1)) := by
        have : (num / den / 2 ^ q : ℚ) < 2 ^ 52 := h52
        unfold Nearest
        rw [if_pos (by norm_num), hscale]
        push_cast
        constructor <;> linarith
      have hleast := hc.least
      have hcarry : (q - 1 - minExponent).toNat * pow2 52 + 2 ^ 53 = encode (2 ^ 52) q := by
        unfold encode
        have hpow : pow2 52 = 2 ^ 52 := rfl
        have : (q - minExponent).toNat = (q - 1 - minExponent).toNat + 1 := by omega
        rw [this, hpow]
        ring
      rw [← hcarry] at hlt ⊢
      exact magnitudeBits_eq hn (by omega) (roundAt_eq hd hnear') hlt

end Binary

end StackLang
