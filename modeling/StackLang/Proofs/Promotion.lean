/-
Promoting an integer to a double. The double is the one nearest to the integer among all finite ones, and of
two that are equally near it is the one with the even significand.
-/
import StackLang.Proofs.Nearest
import StackLang.Value.Number

namespace StackLang.Binary

/-- A double is the nearest one to an integer. It has the integer's sign. Every other number that a double stands
for is farther away, or it is as far and has an odd significand, where that of the nearest one is even. -/
def IsNearest (x : Float) (z : Int) : Prop :=
  ∃ m q, Double.ofFloat x = .finite (z < 0) m q ∧
    ∀ y negative m' q', Double.ofFloat y = .finite negative m' q' →
      Double.value negative m' q' ≠ Double.value (z < 0) m q →
      |Double.value (z < 0) m q - z| < |Double.value negative m' q' - z| ∨
      |Double.value (z < 0) m q - z| = |Double.value negative m' q' - z| ∧ m % 2 = 0 ∧ m' % 2 = 1

theorem cast_eq_sign_mul (z : Int) : (z : ℚ) = Double.sign (z < 0) * z.natAbs := by
  unfold Double.sign
  rcases lt_or_ge z 0 with hz | hz
  · rw [if_pos (decide_eq_true hz), Nat.cast_natAbs, abs_of_neg hz]
    push_cast
    ring
  · rw [if_neg (by simpa using hz), Nat.cast_natAbs, abs_of_nonneg hz, one_mul]

theorem isNearest_iff {x : Float} {z : Int} : IsNearest x z ↔ IsRounding x (z < 0) z.natAbs := by
  simp only [IsNearest, IsRounding, ← cast_eq_sign_mul]

/-- An integer of 64 bits is promoted to the nearest double. -/
theorem isNearest_ofInt {z : Int} (hz : z.natAbs < 2 ^ 64) : IsNearest (ofInt z) z := by
  have hlt : (z.natAbs : ℚ) / (1 : Nat) < 2 ^ 1024 - 2 ^ 970 := by
    rw [Nat.cast_one, div_one]
    have hword : (z.natAbs : ℚ) < 2 ^ (64 : Int) := by exact_mod_cast hz
    exact (hword.trans (two_zpow_lt_iff.2 (by norm_num))).trans_le le_overflow
  have h := isRounding_ofRatio Nat.one_pos hlt (z < 0)
  rw [Nat.cast_one, div_one] at h
  exact isNearest_iff.2 h

end StackLang.Binary

namespace StackLang.Number

/-- A double is what a number is promoted to: a double itself, an integer to the nearest one. -/
def Promotes : Number → Float → Prop
  | .int n, x => Binary.IsNearest x n.toInt
  | .float a, x => x = a

theorem promotes_iff {x : Number} {a : Float} : x.Promotes a ↔ a = x.toFloat := by
  cases x with
  | float b => exact Iff.rfl
  | int n =>
    have hlt : n.toInt.natAbs < 2 ^ 64 := by
      have := n.le_toInt
      have := n.toInt_lt
      omega
    constructor
    · intro h
      exact (Binary.isNearest_iff.1 h).unique (Binary.isNearest_iff.1 (Binary.isNearest_ofInt hlt))
    · rintro rfl
      exact Binary.isNearest_ofInt hlt

-- 2^53 + 1 is halfway between two doubles
example : (Number.int 9007199254740993).toFloat = (Number.int 9007199254740992).toFloat := by decide +kernel

end StackLang.Number
