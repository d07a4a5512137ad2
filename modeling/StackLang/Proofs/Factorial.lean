/-
The factorial word. It is built lazily: the program of the next smaller factorial is not there until
the evaluation gets to it, and the products wait in the queue behind. What it comes to is the factorial
modulo 2^64, from every stack and after `2 n - 1` operations, and no evaluation can tell it from the
program that is written out at once.
-/
import Mathlib.Data.Nat.Factorial.Basic
import StackLang.Proofs.Expression
import StackLang.Proofs.Limit
import StackLang.Dictionary

namespace StackLang

theorem toInt_sub_one {n : Int64} (h : 1 < n) : 1 < n.toInt ∧ (n - 1).toInt = n.toInt - 1 := by
  have hn : (1 : Int64).toInt < n.toInt := Int64.lt_iff_toInt_lt.1 h
  have hpred := Int64.toInt_sub_of_le n 1 (by decide) (Int64.le_of_lt h)
  rw [Int64.toInt_one] at hn hpred
  exact ⟨hn, hpred⟩

namespace Words

open Program

/-! ## Eager and lazy factorials -/

/-- The factorial with all its operations written out at once. -/
def eagerFactorial (n : Int64) : Program Stack :=
  if n ≤ 1 then push (.int 1) else sequence [push (.int n), eagerFactorial (n - 1), mul]
termination_by n.toInt.toNat
decreasing_by
  rename_i h
  obtain ⟨hn, hpred⟩ := toInt_sub_one (Int64.not_le.1 h)
  omega

/-- A bind that ignores the stack puts its program between the number and the product. -/
theorem denote_product (n : Nat) :
    (product (n + 2)).denote =
      (sequence [push (.int (Int64.ofNat (n + 2))), product (n + 1), mul]).denote := by
  rw [product, denote_sequence_inTurn, denote_sequence_inTurn, inTurn, denote_bind, Tree.bind_assoc]
  rfl

/-- Sequences of three programs that behave alike behave alike. -/
theorem denote_sequence_middle {p q : Program Stack} (h : p.denote = q.denote) (first last : Program Stack) :
    (sequence [first, p, last]).denote = (sequence [first, q, last]).denote := by
  simp only [denote_sequence_inTurn, inTurn, h]

theorem factorial_of_one_lt {n : Int64} (h : 1 < n) :
    ∃ k : Nat, Int64.ofNat (k + 2) = n ∧ factorial n = product (k + 2) ∧ factorial (n - 1) = product (k + 1) := by
  obtain ⟨hn, hpred⟩ := toInt_sub_one h
  obtain ⟨k, hk⟩ : ∃ k : Nat, n.toInt = k + 2 := ⟨(n.toInt - 2).toNat, by omega⟩
  refine ⟨k, ?_, ?_, ?_⟩
  · rw [← Int64.ofInt_eq_ofNat, ← Int64.ofInt_toInt n, hk]
    rfl
  · rw [factorial, hk]
    congr 1
  · rw [factorial, hpred, hk]
    congr 1
    omega

theorem factorial_of_le_one {n : Int64} (h : n ≤ 1) : factorial n = push (.int 1) := by
  have hn : n.toInt ≤ (1 : Int64).toInt := Int64.le_iff_toInt_le.1 h
  rw [Int64.toInt_one] at hn
  rw [factorial]
  rcases (by omega : n.toInt.toNat = 0 ∨ n.toInt.toNat = 1) with h0 | h1
  · rw [h0, product]
  · rw [h1, product]

/-- The factorial that unfolds on the way and the one written out at once have the same tree. -/
theorem denote_eagerFactorial (n : Int64) : (eagerFactorial n).denote = (factorial n).denote := by
  fun_induction eagerFactorial n with
  | case1 n h => rw [factorial_of_le_one h]
  | case2 n h ih =>
    obtain ⟨k, hk, hn, hpred⟩ := factorial_of_one_lt (Int64.not_le.1 h)
    rw [denote_sequence_middle ih, hn, denote_product, hpred, hk]

end Words

namespace Interpreter

open Words

/-! ## Evaluation -/

/-- The product of the numbers up to `n` is left on the stack, modulo 2^64. -/
theorem runOn_product {i : Interpreter} (hi : i.maxSteps = none) (n : Nat) (s : Stack) :
    (i.runOn s (product n)).2 =
      some (.ok ⟨s.push (.int (Int64.ofNat n.factorial)), s.push (.int (Int64.ofNat n.factorial)),
        max 1 (2 * n - 1)⟩) := by
  induction n using Nat.twoStepInduction generalizing s with
  | zero => exact runOn_suspend hi (Operation.execute_push s _)
  | one => exact runOn_suspend hi (Operation.execute_push s _)
  | more n _ ih =>
    let number := Value.int (Int64.ofNat (n + 2))
    let smaller := Value.int (Int64.ofNat (n + 1).factorial)
    let t := s.push (.int (Int64.ofNat (n + 2).factorial))
    have hpush : (i.runOn s (.push number)).2 = some (.ok ⟨s.push number, s.push number, 1⟩) :=
      runOn_suspend hi (Operation.execute_push s number)
    have hx : Operation.mul.execute ((s.push number).push smaller) = .ok t := by
      rw [Operation.execute_mul, Operation.combine_of_numbers (x := .int _) (y := .int _) rfl rfl]
      simp only [Number.mul, Number.toValue, t, Nat.factorial_succ (n + 1), Nat.mul_comm (n + 1 + 1), Int64.ofNat_mul]
    have hmul : (i.runOn ((s.push number).push smaller) .mul).2 = some (.ok ⟨t, t, 1⟩) := runOn_suspend hi hx
    rw [i.runOn_congr s (denote_product n)]
    -- the number waits below while the smaller product is computed on top of it
    have hs := Concludes.runOn_sequence hi (.succeeded (.cons hpush (.cons (ih _) (.cons hmul (.nil t)))))
    refine hs.trans ?_
    simp only [lastValue_cons, lastStack_cons, totalSteps_cons]
    have hsteps : 1 + (max 1 (2 * (n + 1) - 1) + (1 + totalSteps [])) = max 1 (2 * (n + 2) - 1) := by
      show 1 + (max 1 (2 * (n + 1) - 1) + (1 + 0)) = _
      omega
    rw [hsteps]
    rfl

/-- Without a limit, the factorial of any integer of 64 bits succeeds from every stack. -/
theorem runOn_factorial_unlimited {i : Interpreter} (hi : i.maxSteps = none) (n : Int64) (s : Stack) :
    (i.runOn s (factorial n)).2 =
      some (.ok ⟨s.push (.int (Int64.ofNat n.toInt.toNat.factorial)), s.push (.int (Int64.ofNat n.toInt.toNat.factorial)),
        (max 1 (2 * n.toInt - 1)).toNat⟩) := by
  have hsteps : (max 1 (2 * n.toInt - 1)).toNat = max 1 (2 * n.toInt.toNat - 1) := by omega
  rw [hsteps]
  exact runOn_product hi n.toInt.toNat s

/-- The factorial of every integer `n` of 64 bits succeeds from every stack. It puts one integer on the
stack, and that stack is its result: the one that is congruent to `n!` modulo 2^64, and 1 where `n` is
at most 1. It takes `2 n - 1` operations and at least one, so that under a limit it has the same outcome
or, if the limit is smaller, that of the limit. From every stack and under every limit its verdict is that
of the factorial written out at once. -/
theorem runOn_factorial (initial s : Stack) (n : Int64) :
    let steps := (max 1 (2 * n.toInt - 1)).toNat
    ∃ w : Int64,
      (1 ≤ n → ∀ w' : Int64, w'.toInt ≡ n.toInt.toNat.factorial [ZMOD 2 ^ 64] ↔ w' = w) ∧ (n ≤ 1 → w = 1) ∧
      ((startingAt initial).runOn s (factorial n)).2 = some (.ok ⟨s.push (.int w), s.push (.int w), steps⟩) ∧
      (∀ l, ((mk initial (some l)).runOn s (factorial n)).2 =
        some (if steps ≤ l then .ok ⟨s.push (.int w), s.push (.int w), steps⟩ else .error ⟨.stepLimit l, l⟩)) ∧
      ∀ limit, ((mk initial limit).runOn s (factorial n)).2 = ((mk initial limit).runOn s (eagerFactorial n)).2 := by
  intro steps
  have hrun := runOn_factorial_unlimited (i := startingAt initial) rfl n s
  refine ⟨Int64.ofNat n.toInt.toNat.factorial, fun _ w' => ?_, fun h => ?_, hrun, fun l => ?_, fun limit => ?_⟩
  · rw [toInt_modEq_iff, Int64.ofInt_eq_ofNat]
  · have hn : n.toInt ≤ (1 : Int64).toInt := Int64.le_iff_toInt_le.1 h
    rw [Int64.toInt_one] at hn
    rw [Nat.factorial_eq_one.2 (by omega : n.toInt.toNat ≤ 1)]
    rfl
  · rw [runOn_limited, hrun]
    rfl
  · exact runOn_congr _ s (denote_eagerFactorial n).symm

/-- The factorial of 21 is the first that wraps around, and 40 operations are too few for it; that of a
negative number is 1. -/
theorem runOn_factorial_wrapping :
    let t : Stack := .ofList [.int (-4249290049419214848), .str "x"]
    ((1 : Int64) ≤ 21 ∧ ((startingAt .empty).runOn (.ofList [.str "x"]) (factorial 21)).2 = some (.ok ⟨t, t, 41⟩) ∧
      ((mk .empty (some 41)).runOn (.ofList [.str "x"]) (factorial 21)).2 = some (.ok ⟨t, t, 41⟩) ∧
      ((mk .empty (some 40)).runOn (.ofList [.str "x"]) (factorial 21)).2 = some (.error ⟨.stepLimit 40, 40⟩)) ∧
    ((-3 : Int64) ≤ 1 ∧
      ((startingAt .empty).runOn .empty (factorial (-3))).2 = some (.ok ⟨.ofList [.int 1], .ofList [.int 1], 1⟩)) := by
  intro t
  obtain ⟨w, hw, -, hrun, hlimit, -⟩ := runOn_factorial .empty (.ofList [.str "x"]) 21
  obtain ⟨v, -, hv, hneg, -⟩ := runOn_factorial .empty .empty (-3)
  obtain rfl : -4249290049419214848 = w := (hw (by decide) _).1 (by decide)
  obtain rfl : v = 1 := hv (by decide)
  exact ⟨⟨by decide, hrun, hlimit 41, hlimit 40⟩, by decide, hneg⟩

end Interpreter

end StackLang
