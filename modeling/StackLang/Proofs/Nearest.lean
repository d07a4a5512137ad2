/-
The double nearest to a number. The doubles next to `m · 2 ^ q` are one unit `2 ^ q` away, or half a unit below
a power of two, and everything in the interval of `m · 2 ^ q` reaches at most half of the way to them. So a
number is rounded to the nearest of all finite doubles, and of two that are equally near to the one with the
even significand. This holds below `2 ^ 1024 - 2 ^ 970`, which is halfway from the largest double to the next
power of two; from there on numbers are rounded to infinity.
-/
import StackLang.Proofs.Double

namespace StackLang.Binary

open Decimal (Interval)

variable {m m' : Nat} {q q' : Int}

/-! ## Neighbours -/

/-- The number `m · 2 ^ q` in units of `2 ^ u`. -/
def inUnits (u : Int) (m : Nat) (q : Int) : ℚ := m * 2 ^ q / 2 ^ u

theorem inUnits_self (m : Nat) (q : Int) : inUnits q m q = m := mul_div_cancel_right₀ _ (two_zpow_pos q).ne'

/-- In the units of no larger exponent a double is a whole number, and an odd one only in its own units. -/
theorem inUnits_of_le (m' : Nat) (h : q ≤ q') : ∃ k : Nat, inUnits q m' q' = k ∧ (k % 2 = 1 → k = m') := by
  rcases eq_or_lt_of_le h with rfl | hlt
  · exact ⟨m', inUnits_self m' q, fun _ => rfl⟩
  · obtain ⟨n, rfl⟩ : ∃ n : Nat, q' = q + 1 + n := ⟨(q' - q - 1).toNat, by omega⟩
    have hp := two_zpow_pos q
    refine ⟨2 * (m' * 2 ^ n), ?_, by omega⟩
    rw [inUnits, zpow_add₀ (by norm_num), zpow_add_one₀ (by norm_num), zpow_natCast]
    push_cast
    field_simp

/-- In the units of the next exponent a double is half of its significand, and less in those of larger exponents. -/
theorem inUnits_of_lt (m' : Nat) (h : q' < q) : 2 * inUnits q m' q' = m' ∨ 4 * inUnits q m' q' ≤ m' := by
  obtain ⟨n, rfl⟩ : ∃ n : Nat, q = q' + 1 + n := ⟨(q - q' - 1).toNat, by omega⟩
  have hp := two_zpow_pos q'
  have hunits : 2 * inUnits (q' + 1 + n) m' q' = m' / 2 ^ n := by
    rw [inUnits, zpow_add₀ (by norm_num), zpow_add_one₀ (by norm_num), zpow_natCast]
    field_simp
  rcases Nat.eq_zero_or_pos n with rfl | hn
  · exact Or.inl (by rw [hunits, pow_zero, div_one])
  · have hpow : (2 : ℚ) ≤ 2 ^ n := by exact_mod_cast Nat.pow_le_pow_right (by norm_num : 0 < 2) hn
    have hhalf : (m' : ℚ) / 2 ^ n ≤ m' / 2 := div_le_div_of_nonneg_left (Nat.cast_nonneg m') (by norm_num) hpow
    exact Or.inr (by linarith)

/-- Of two numbers the nearer one is on the same side of their middle. -/
theorem abs_sub_lt_or_eq {a b x : ℚ} (h : a < b ∧ 2 * x ≤ a + b ∨ b < a ∧ a + b ≤ 2 * x) :
    |a - x| < |b - x| ∨ |a - x| = |b - x| ∧ 2 * x = a + b := by
  rcases eq_or_ne (2 * x) (a + b) with htie | htie
  · refine Or.inr ⟨?_, htie⟩
    rw [abs_sub_comm a x]
    congr 1
    linarith
  · refine Or.inl (sq_lt_sq.1 ?_)
    have hsq : (b - x) ^ 2 - (a - x) ^ 2 = (b - a) * (a + b - 2 * x) := by ring
    have hpos : 0 < (b - a) * (a + b - 2 * x) := by
      rcases h with ⟨hab, hx⟩ | ⟨hab, hx⟩
      · exact mul_pos (by linarith) (by linarith [lt_of_le_of_ne hx htie])
      · exact mul_pos_of_neg_of_neg (by linarith) (by linarith [lt_of_le_of_ne hx htie.symm])
    linarith

section Neighbours

variable (hc : Canonical m q) (hc' : Canonical m' q')
include hc hc'

theorem le_of_exponent_lt (hq : q' < q) : 2 ^ 52 ≤ m := by
  have hleast := hc'.least
  exact hc.normal.resolve_left (by omega)

/-- A smaller exponent goes with smaller numbers. -/
theorem inUnits_lt (hq : q' < q) : inUnits q m' q' < m := by
  have hm : (2 : ℚ) ^ 52 ≤ m := by exact_mod_cast le_of_exponent_lt hc hc' hq
  have hm' : (m' : ℚ) < 2 ^ 53 := by exact_mod_cast hc'.lt
  have h0 : (0 : ℚ) ≤ m' := Nat.cast_nonneg m'
  rcases inUnits_of_lt m' hq with hu | hu <;> linarith

/-- The next double is one unit up. -/
theorem succ_le_inUnits (h : (m : ℚ) < inUnits q m' q') :
    (m : ℚ) + 1 ≤ inUnits q m' q' ∧ (inUnits q m' q' = m + 1 → m % 2 = 0 → m' % 2 = 1) := by
  rcases lt_or_ge q' q with hq | hq
  · exact absurd h (inUnits_lt hc hc' hq).asymm
  · obtain ⟨k, hk, hodd⟩ := inUnits_of_le m' hq
    rw [hk] at h ⊢
    have hmk : m < k := by exact_mod_cast h
    refine ⟨by exact_mod_cast hmk, fun heq hpar => ?_⟩
    have hkm : k = m + 1 := by exact_mod_cast heq
    rw [← hodd (by omega)]
    omega

/-- The double before is one unit down, half a unit below a power of two. -/
theorem inUnits_le_pred (h : inUnits q m' q' < m) :
    (inUnits q m' q' + 1 ≤ m ∧ (inUnits q m' q' + 1 = m → m % 2 = 0 → m' % 2 = 1)) ∨
    (m = 2 ^ 52 ∧ q ≠ minExponent ∧
      inUnits q m' q' + 1 / 2 ≤ m ∧ (inUnits q m' q' + 1 / 2 = m → m' % 2 = 1)) := by
  rcases lt_or_ge q' q with hq | hq
  · have hm' : (m' : ℚ) + 1 ≤ 2 ^ 53 := by exact_mod_cast hc'.lt
    have h0 : (0 : ℚ) ≤ m' := Nat.cast_nonneg m'
    rcases eq_or_lt_of_le (le_of_exponent_lt hc hc' hq) with rfl | hlt
    · refine Or.inr ⟨rfl, by have := hc'.least; omega, ?_⟩
      push_cast
      rcases inUnits_of_lt m' hq with hu | hu
      · refine ⟨by linarith, fun htie => ?_⟩
        have hlast : (m' : ℚ) + 1 = 2 ^ 53 := by linarith
        have : m' + 1 = 2 ^ 53 := by exact_mod_cast hlast
        omega
      · exact ⟨by linarith, fun htie => by linarith⟩
    · have hm52 : (2 : ℚ) ^ 52 + 1 ≤ m := by exact_mod_cast hlt
      refine Or.inl ?_
      rcases inUnits_of_lt m' hq with hu | hu
      · exact ⟨by linarith, fun htie => by linarith⟩
      · exact ⟨by linarith, fun htie => by linarith⟩
  · obtain ⟨k, hk, hodd⟩ := inUnits_of_le m' hq
    rw [hk] at h ⊢
    have hkm : k < m := by exact_mod_cast h
    refine Or.inl ⟨by exact_mod_cast hkm, fun htie hpar => ?_⟩
    have heq : k + 1 = m := by exact_mod_cast htie
    rw [← hodd (by omega)]
    omega

/-- A number in the interval of a double is nearer to it than to any other double, or it is halfway between them
and the double has the even significand of the two. -/
theorem nearest_inUnits {x : ℚ} (hx : (Interval.around m q).Mem (4 * x)) (hne : inUnits q m' q' ≠ m) :
    |m - x| < |inUnits q m' q' - x| ∨ |m - x| = |inUnits q m' q' - x| ∧ m % 2 = 0 ∧ m' % 2 = 1 := by
  have hnear := Interval.nearest_of_mem hx
  obtain ⟨hlow, hhigh⟩ := hnear.le
  -- only an even significand takes the middle
  have heven : x = m - 1 / 2 ∨ x = m + 1 / 2 → m % 2 = 0 := by
    intro hend
    by_contra hpar
    obtain ⟨hlow', hhigh'⟩ := hnear.lt (by omega)
    rcases hend with hend | hend <;> linarith
  rcases lt_or_gt_of_ne hne with hlt | hgt
  · rcases inUnits_le_pred hc hc' hlt with ⟨hle, hodd⟩ | ⟨rfl, hq, hle, hodd⟩
    · refine (abs_sub_lt_or_eq (Or.inr ⟨hlt, by linarith⟩)).imp_right fun ⟨habs, htie⟩ => ?_
      have hpar := heven (Or.inl (by linarith))
      exact ⟨habs, hpar, hodd (by linarith) hpar⟩
    · have hquarter := Interval.le_of_mem_binade hq hx
      push_cast at hle hodd hlt ⊢
      refine (abs_sub_lt_or_eq (Or.inr ⟨hlt, by linarith⟩)).imp_right fun ⟨habs, htie⟩ => ?_
      exact ⟨habs, by norm_num, hodd (by linarith)⟩
  · obtain ⟨hle, hodd⟩ := succ_le_inUnits hc hc' hgt
    refine (abs_sub_lt_or_eq (Or.inl ⟨hgt, by linarith⟩)).imp_right fun ⟨habs, htie⟩ => ?_
    have hpar := heven (Or.inr (by linarith))
    exact ⟨habs, hpar, hodd (by linarith) hpar⟩

/-- The same for the numbers themselves. -/
theorem nearest_of_mem_around {r : ℚ} (hr : (Interval.around m q).Mem (4 * (r / 2 ^ q)))
    (hne : (m' : ℚ) * 2 ^ q' ≠ m * 2 ^ q) :
    |m * 2 ^ q - r| < |m' * 2 ^ q' - r| ∨ |m * 2 ^ q - r| = |m' * 2 ^ q' - r| ∧ m % 2 = 0 ∧ m' % 2 = 1 := by
  have hp := two_zpow_pos q
  have hscale : ∀ a : ℚ, |a - r| = |a / 2 ^ q - r / 2 ^ q| * 2 ^ q := by
    intro a
    rw [← sub_div, abs_div, abs_of_pos hp, div_mul_cancel₀ _ hp.ne']
  have hunits : inUnits q m' q' ≠ m := fun h => hne ((div_eq_iff hp.ne').1 h)
  have h := nearest_inUnits hc hc' hr hunits
  rw [hscale (m * 2 ^ q), hscale (m' * 2 ^ q'), mul_lt_mul_iff_left₀ hp, mul_left_inj' hp.ne',
    mul_div_cancel_right₀ _ hp.ne']
  exact h

theorem exponent_le_of_mul_eq (h : (m' : ℚ) * 2 ^ q' = m * 2 ^ q) : q ≤ q' := by
  by_contra hq
  have hunits : inUnits q m' q' = m := by rw [inUnits, h, ← inUnits, inUnits_self]
  exact (inUnits_lt hc hc' (not_le.1 hq)).ne hunits

/-- Different finite doubles of one sign stand for different numbers. -/
theorem eq_of_mul_eq (h : (m' : ℚ) * 2 ^ q' = m * 2 ^ q) : m' = m ∧ q' = q := by
  obtain rfl : q' = q := le_antisymm (exponent_le_of_mul_eq hc' hc h.symm) (exponent_le_of_mul_eq hc hc' h)
  have hm : (m' : ℚ) = m := mul_right_cancel₀ (two_zpow_pos q').ne' h
  exact ⟨by exact_mod_cast hm, rfl⟩

end Neighbours

/-! ## The nearest double -/

theorem exists_nearest {x : ℚ} (hx : 0 ≤ x) : ∃ m, Nearest m x := by
  have hlow := Nat.floor_le hx
  have hhigh := Nat.lt_floor_add_one x
  generalize ⌊x⌋₊ = n at hlow hhigh
  have hsucc : ((n + 1 : Nat) : ℚ) = n + 1 := Nat.cast_succ n
  rcases lt_trichotomy x (n + 1 / 2) with hlt | heq | hgt
  · refine ⟨n, ?_⟩
    unfold Nearest
    split <;> constructor <;> linarith
  · -- halfway, the even neighbour is taken
    rcases Nat.mod_two_eq_zero_or_one n with hpar | hpar
    · refine ⟨n, ?_⟩
      unfold Nearest
      rw [if_pos hpar]
      constructor <;> linarith
    · refine ⟨n + 1, ?_⟩
      unfold Nearest
      rw [if_pos (by omega), hsucc]
      constructor <;> linarith
  · refine ⟨n + 1, ?_⟩
    unfold Nearest
    rw [hsucc]
    split <;> constructor <;> linarith

/-- What rounds to a significand lies in the interval of its double, unless it is too far below a power of two. -/
theorem Nearest.mem_around {x : ℚ} (h : Nearest m x) (hx : 0 ≤ x)
    (hbinade : m = 2 ^ 52 → q ≠ minExponent → (2 : ℚ) ^ 52 - 1 / 4 ≤ x) : (Interval.around m q).Mem (4 * x) := by
  have hhigh := Interval.high_around m q
  have hclosed : (Interval.around m q).closed = decide (m % 2 = 0) := rfl
  unfold Interval.Mem
  rw [hclosed, hhigh]
  by_cases hm52 : m = 2 ^ 52 ∧ q ≠ minExponent
  · have hlow := Interval.low_around_le (q := q) (by omega : 0 < m)
    have hmq : (m : ℚ) = 2 ^ 52 := by exact_mod_cast hm52.1
    rw [if_pos (decide_eq_true (by omega))]
    constructor <;> linarith [h.le.2, hbinade hm52.1 hm52.2]
  · have hlow : (Interval.around m q).low = 4 * m - 2 := by
      unfold Interval.around
      exact if_neg hm52
    rw [hlow]
    rcases Nat.eq_zero_or_pos m with rfl | hm
    · have hhalf := h.le.2
      push_cast at hhalf ⊢
      rw [if_pos (by decide)]
      constructor <;> linarith
    · rw [Nat.cast_sub (by omega)]
      push_cast
      unfold Nearest at h
      by_cases hpar : m % 2 = 0
      · rw [if_pos hpar] at h
        rw [if_pos (decide_eq_true hpar)]
        constructor <;> linarith [h.1, h.2]
      · rw [if_neg hpar] at h
        rw [if_neg (by simpa using hpar)]
        constructor <;> linarith [h.1, h.2]

/-- In the units of its binade a positive number has 53 binary digits before the point, and fewer only in the
lowest binade. -/
theorem scaled_bounds {x : ℚ} (hx : 0 < x) (hq : q = max (Int.log 2 x - 52) minExponent) :
    x / 2 ^ q < 2 ^ 53 ∧ (q = minExponent ∨ (2 : ℚ) ^ 52 ≤ x / 2 ^ q) := by
  have hp := two_zpow_pos q
  have hlow : (2 : ℚ) ^ Int.log 2 x ≤ x := by exact_mod_cast Int.zpow_log_le_self (b := 2) (by norm_num) hx
  have hhigh : x < (2 : ℚ) ^ (Int.log 2 x + 1) := by
    exact_mod_cast Int.lt_zpow_succ_log_self (b := 2) (by norm_num) x
  constructor
  · rw [div_lt_iff₀ hp]
    calc x < 2 ^ (Int.log 2 x + 1) := hhigh
      _ ≤ 2 ^ (53 + q) := zpow_le_zpow_right₀ (by norm_num) (by omega)
      _ = 2 ^ 53 * 2 ^ q := (two_zpow_mul 53 q).symm
  · rcases le_or_gt (Int.log 2 x - 52) minExponent with hle | hgt
    · exact Or.inl (by omega)
    · refine Or.inr ?_
      rw [le_div_iff₀ hp]
      calc (2 : ℚ) ^ 52 * 2 ^ q = 2 ^ (52 + q) := two_zpow_mul 52 q
        _ = 2 ^ Int.log 2 x := by congr 1; omega
        _ ≤ x := hlow

theorem canonical_zero : Canonical 0 minExponent := ⟨by norm_num, le_rfl, by decide, Or.inl rfl⟩

/-- The middle between the largest double and the next power of two, in units of the largest doubles. -/
theorem overflow_eq : (2 : ℚ) ^ 1024 - 2 ^ 970 = (2 ^ 53 - 1 / 2) * 2 ^ (971 : Int) := by
  have h1024 : (2 : ℚ) ^ 1024 = 2 ^ 54 * 2 ^ 970 := pow_add 2 54 970
  have h971 : (2 : ℚ) ^ (971 : Int) = 2 ^ (1 : Int) * 2 ^ 970 := (two_zpow_mul 1 970).symm
  rw [h1024, h971]
  generalize (2 : ℚ) ^ 970 = p
  ring

theorem overflow_lt : (2 : ℚ) ^ 1024 - 2 ^ 970 < 2 ^ (1024 : Int) := sub_lt_self _ (pow_pos two_pos 970)

theorem le_overflow : (2 : ℚ) ^ (1023 : Int) ≤ 2 ^ 1024 - 2 ^ 970 := by
  have h1023 : (2 : ℚ) ^ (1023 : Int) = 2 ^ (52 : Int) * 2 ^ (971 : Int) := (two_zpow_mul 52 971).symm
  rw [overflow_eq, h1023]
  exact mul_le_mul_of_nonneg_right (by norm_num) (two_zpow_pos 971).le

/-- Every number that is not too large lies in the interval of a double. -/
theorem exists_mem_around {x : ℚ} (hx : 0 ≤ x) (hlt : x < 2 ^ 1024 - 2 ^ 970) :
    ∃ m q, Canonical m q ∧ (Interval.around m q).Mem (4 * (x / 2 ^ q)) := by
  rcases hx.eq_or_lt with rfl | hpos
  · have hnear : Nearest 0 0 := by unfold Nearest; norm_num
    refine ⟨0, minExponent, canonical_zero, ?_⟩
    rw [zero_div]
    exact hnear.mem_around le_rfl fun h => by norm_num at h
  · obtain ⟨q, hq⟩ : ∃ q : Int, q = max (Int.log 2 x - 52) minExponent := ⟨_, rfl⟩
    obtain ⟨hhigh, hnormal⟩ := scaled_bounds hpos hq
    have hp := two_zpow_pos q
    have hlog : Int.log 2 x < 1024 := by
      refine (Int.lt_zpow_iff_log_lt (by norm_num) hpos).1 ?_
      exact hlt.trans overflow_lt
    have hscaled : 0 ≤ x / 2 ^ q := by positivity
    obtain ⟨k, hk⟩ := exists_nearest hscaled
    have hle : k ≤ 2 ^ 53 := by
      have : (k : ℚ) < 2 ^ 53 + 1 := by linarith [hk.le.1]
      have : k < 2 ^ 53 + 1 := by exact_mod_cast this
      omega
    have hleast : minExponent ≤ q := by omega
    have hmost : q ≤ 971 := by unfold minExponent at hq; omega
    rcases eq_or_lt_of_le hle with rfl | hk53
    · -- rounding up reaches the next power of two, which is one of the doubles below the middle
      have hcarry := hk.le.1
      rw [Nat.cast_pow, Nat.cast_ofNat] at hcarry
      have hne : q ≠ 971 := by
        rintro rfl
        rw [le_div_iff₀ hp, ← overflow_eq] at hcarry
        exact hlt.not_ge hcarry
      have hscale : x / 2 ^ (q + 1) = x / 2 ^ q / 2 := by rw [zpow_add_one₀ (by norm_num)]; field_simp
      have hnear : Nearest (2 ^ 52) (x / 2 ^ (q + 1)) := by
        unfold Nearest
        rw [if_pos (by norm_num), hscale]
        push_cast
        constructor <;> linarith
      have hc : Canonical (2 ^ 52) (q + 1) := ⟨by norm_num, by omega, by omega, Or.inr le_rfl⟩
      refine ⟨_, _, hc, hnear.mem_around (by rw [hscale]; linarith) fun _ _ => ?_⟩
      rw [hscale]
      linarith
    · have hge : (2 : ℚ) ^ 52 ≤ x / 2 ^ q → 2 ^ 52 ≤ k := by
        intro h52
        have : (2 : ℚ) ^ 52 < k + 1 := by linarith [hk.le.2]
        have : 2 ^ 52 < k + 1 := by exact_mod_cast this
        omega
      have hc : Canonical k q := ⟨hk53, hleast, hmost, hnormal.imp_right hge⟩
      exact ⟨k, q, hc, hk.mem_around hscaled fun _ hq => by linarith [hnormal.resolve_left hq]⟩

/-! ## Too large numbers -/

/-- A number no farther than a half below an even one is rounded no lower. -/
theorem Nearest.le_of_even {n : Nat} {x : ℚ} (h : Nearest m x) (hn : n % 2 = 0) (hx : (n : ℚ) - 1 / 2 ≤ x) : n ≤ m := by
  by_contra hlt
  have hle : (m : ℚ) + 1 ≤ n := by exact_mod_cast not_le.1 hlt
  have htie : (m : ℚ) + 1 = n := by linarith [h.le.2]
  have hsucc : m + 1 = n := by exact_mod_cast htie
  linarith [(h.lt (by omega)).2]

/-- From halfway between the largest double and the next power of two on, ratios are rounded to infinity. -/
theorem magnitudeBits_of_ge {num den : Nat} (hd : 0 < den) (h : (2 : ℚ) ^ 1024 - 2 ^ 970 ≤ num / den) :
    magnitudeBits num den = infinityBits := by
  have hlarge : (2 : ℚ) ^ (1023 : Int) ≤ num / den := le_overflow.trans h
  have hn : 0 < num := by
    rcases Nat.eq_zero_or_pos num with rfl | hn
    · rw [Nat.cast_zero, zero_div] at hlarge
      exact absurd hlarge (two_zpow_pos 1023).not_ge
    · exact hn
  have hlog := le_floorLog2 hn hd hlarge
  unfold magnitudeBits
  rw [if_neg (by omega)]
  dsimp only
  apply min_eq_right
  obtain ⟨q, hq⟩ : ∃ q : Int, q = max (floorLog2 num den - 52) minExponent := ⟨_, rfl⟩
  rw [← hq]
  have hq' : q = floorLog2 num den - 52 := by unfold minExponent at hq; omega
  have hp := two_zpow_pos q
  obtain ⟨k, hk⟩ := exists_nearest (x := num / den / 2 ^ q) (by positivity)
  rw [roundAt_eq hd hk]
  have hk52 : 2 ^ 52 ≤ k := by
    refine hk.le_of_even (by norm_num) ?_
    rw [le_div_iff₀ hp]
    calc (((2 ^ 52 : Nat) : ℚ) - 1 / 2) * 2 ^ q ≤ 2 ^ 52 * 2 ^ q := by
          push_cast
          exact mul_le_mul_of_nonneg_right (by linarith) hp.le
      _ = 2 ^ floorLog2 num den := by rw [hq']; exact (two_zpow_mul 52 _).trans (by congr 1; omega)
      _ ≤ num / den := (floorLog2_bounds hn hd).1
  unfold infinityBits minExponent
  simp only [pow2_eq]
  rcases (by omega : q = 971 ∨ 972 ≤ q) with rfl | hge
  · have hk53 : 2 ^ 53 ≤ k := by
      refine hk.le_of_even (by norm_num) ?_
      rw [le_div_iff₀ hp, Nat.cast_pow, Nat.cast_ofNat, ← overflow_eq]
      exact h
    omega
  · have hfield : 2046 * 2 ^ 52 ≤ (q - -1074).toNat * 2 ^ 52 := Nat.mul_le_mul_right _ (by omega)
    omega

/-! ## Rounding -/

/-- The sign as a factor. -/
def Double.sign (negative : Bool) : ℚ := if negative then -1 else 1

/-- The number a finite double stands for. -/
def Double.value (negative : Bool) (m : Nat) (q : Int) : ℚ := sign negative * (m * 2 ^ q)

/-- A double is what `± r` is rounded to. It has the given sign. Every other number that a double stands for is
farther away from `± r`, or it is as far and has an odd significand, where that of the rounded one is even. -/
def IsRounding (x : Float) (negative : Bool) (r : ℚ) : Prop :=
  ∃ m q, Double.ofFloat x = .finite negative m q ∧
    ∀ y negative' m' q', Double.ofFloat y = .finite negative' m' q' →
      Double.value negative' m' q' ≠ Double.value negative m q →
      |Double.value negative m q - Double.sign negative * r| < |Double.value negative' m' q' - Double.sign negative * r| ∨
      |Double.value negative m q - Double.sign negative * r| = |Double.value negative' m' q' - Double.sign negative * r| ∧
        m % 2 = 0 ∧ m' % 2 = 1

theorem Double.abs_sign (negative : Bool) : |sign negative| = 1 := by
  cases negative <;> simp [sign]

theorem Double.sign_eq_neg {a b : Bool} (h : a ≠ b) : sign a = -sign b := by
  cases a <;> cases b <;> simp [sign] at h ⊢

/-- Of the doubles with the same sign, only the magnitudes are compared. -/
theorem abs_value_sub (negative : Bool) (m : Nat) (q : Int) (r : ℚ) :
    |Double.value negative m q - Double.sign negative * r| = |m * 2 ^ q - r| := by
  rw [Double.value, ← mul_sub, abs_mul, Double.abs_sign, one_mul]

/-- The doubles with the other sign are on the other side of zero. -/
theorem abs_value_sub_of_ne {negative negative' : Bool} (h : negative' ≠ negative) (m : Nat) (q : Int) {r : ℚ}
    (hr : 0 ≤ r) : |Double.value negative' m q - Double.sign negative * r| = m * 2 ^ q + r := by
  have hp := two_zpow_pos q
  have hsum : Double.value negative' m q - Double.sign negative * r = Double.sign negative * -(m * 2 ^ q + r) := by
    rw [Double.value, Double.sign_eq_neg h]
    ring
  rw [hsum, abs_mul, Double.abs_sign, one_mul, abs_neg, abs_of_nonneg (by positivity)]

/-- What lies in the interval of a double is rounded to it. -/
theorem isRounding_of_mem (hc : Canonical m q) {r : ℚ} (hr : 0 ≤ r)
    (hmem : (Interval.around m q).Mem (4 * (r / 2 ^ q))) (negative : Bool) :
    IsRounding (Float.ofBits (UInt64.ofNat (encode m q + Double.signBits negative))) negative r := by
  refine ⟨m, q, Double.ofFloat_encode hc negative, fun y negative' m' q' hy hne => ?_⟩
  have hc' := (Double.eq_of_finite hy).1
  rw [abs_value_sub]
  by_cases hsign : negative' = negative
  · subst hsign
    rw [abs_value_sub]
    refine nearest_of_mem_around hc hc' hmem fun h => hne ?_
    rw [Double.value, Double.value, h]
  · rw [abs_value_sub_of_ne hsign m' q' hr]
    refine Or.inl ?_
    have hp := two_zpow_pos q
    have hp' := two_zpow_pos q'
    rcases Nat.eq_zero_or_pos m with rfl | hm
    · have hm' : (0 : ℚ) < m' := by
        rcases Nat.eq_zero_or_pos m' with rfl | hm'
        · exact absurd (by simp [Double.value]) hne
        · exact_mod_cast hm'
      rw [Nat.cast_zero, zero_mul, zero_sub, abs_neg, abs_of_nonneg hr]
      exact lt_add_of_pos_left r (by positivity)
    · -- already zero is farther away
      have hmq : (0 : ℚ) < m := by exact_mod_cast hm
      have hzero := nearest_of_mem_around hc canonical_zero hmem (by rw [Nat.cast_zero, zero_mul]; positivity)
      rw [Nat.cast_zero, zero_mul, zero_sub, abs_neg, abs_of_nonneg hr] at hzero
      rcases hzero with hlt | ⟨-, -, hodd⟩
      · exact hlt.trans_le (le_add_of_nonneg_left (by positivity))
      · cases hodd

theorem IsRounding.isFinite {x : Float} {negative : Bool} {r : ℚ} (h : IsRounding x negative r) :
    x.isFinite = true := by
  obtain ⟨m, q, hx, -⟩ := h
  exact Double.isFinite_iff.2 ⟨negative, m, q, hx⟩

/-- A number is rounded to one double only. -/
theorem IsRounding.unique {x y : Float} {negative : Bool} {r : ℚ} (hx : IsRounding x negative r)
    (hy : IsRounding y negative r) : x = y := by
  obtain ⟨m, q, hxf, hxn⟩ := hx
  obtain ⟨m', q', hyf, hyn⟩ := hy
  by_cases hv : Double.value negative m' q' = Double.value negative m q
  · have hsign : Double.sign negative ≠ 0 := fun h => by simpa [h] using Double.abs_sign negative
    obtain ⟨rfl, rfl⟩ := eq_of_mul_eq (Double.eq_of_finite hxf).1 (Double.eq_of_finite hyf).1 (mul_left_cancel₀ hsign hv)
    exact Double.ofFloat_inj (hxf.trans hyf.symm)
  · exfalso
    rcases hxn y _ m' q' hyf hv with hlt | ⟨heq, hpar, hodd⟩
    · rcases hyn x _ m q hxf (Ne.symm hv) with hlt' | ⟨heq', -⟩
      · linarith
      · linarith
    · rcases hyn x _ m q hxf (Ne.symm hv) with hlt' | ⟨-, hpar', -⟩
      · linarith
      · omega

/-- A ratio that is not too large is rounded to a finite double. -/
theorem isRounding_ofRatio {num den : Nat} (hd : 0 < den) (h : (num / den : ℚ) < 2 ^ 1024 - 2 ^ 970)
    (negative : Bool) : IsRounding (ofRatio negative num den) negative (num / den) := by
  have hr : (0 : ℚ) ≤ num / den := by positivity
  obtain ⟨m, q, hc, hmem⟩ := exists_mem_around hr h
  rw [ofRatio, magnitudeBits_of_mem hc hd hmem]
  exact isRounding_of_mem hc hr hmem negative

end StackLang.Binary
