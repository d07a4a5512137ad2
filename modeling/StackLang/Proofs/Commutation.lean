/-
Sums and products do not depend on the order of their operands. For integers of 64 bits this is the
commutativity of the words; for doubles it is that of their arithmetic, which treats its operands alike in
every case: NaN, of which there is only one, infinities, zeros of either sign, and finite numbers, whose
exact sum or product is rounded. Promoting an integer to a double is done to each operand on its own.
-/
import StackLang.Value.Number

namespace StackLang

/-! ## Doubles -/

namespace Binary

section Model

open Float.Model UnpackedFloat

theorem sign_mul_comm (s t : Sign) : s * t = t * s := by
  cases s with
  | negative => cases t <;> rfl
  | positive => cases t <;> rfl

theorem unpacked_add_comm (spec : Format) (x y : UnpackedFloat) : x.add spec y = y.add spec x := by
  cases x with
  | notANumber => cases y <;> rfl
  | infinity s =>
    cases y with
    | infinity t => cases s <;> cases t <;> rfl
    | notANumber | zero t | finite t m e h => rfl
  | zero s =>
    cases y with
    | zero t => cases s <;> cases t <;> rfl
    | notANumber | infinity t | finite t m e h => rfl
  | finite s m e h =>
    cases y with
    | notANumber | infinity t | zero t => rfl
    | finite t m' e' h' =>
      -- both significands are brought to the smaller exponent before they are added
      show normalize spec (s.apply (decreaseExponent m e (min e e')).1 + t.apply (decreaseExponent m' e' (min e e')).1)
          (min e e') .positive =
        normalize spec (t.apply (decreaseExponent m' e' (min e' e)).1 + s.apply (decreaseExponent m e (min e' e)).1)
          (min e' e) .positive
      rw [Int.min_comm e' e, Int.add_comm]

theorem unpacked_mul_comm (spec : Format) (x y : UnpackedFloat) : x.mul spec y = y.mul spec x := by
  cases x with
  | notANumber => cases y <;> rfl
  | infinity s =>
    cases y with
    | notANumber | zero t => rfl
    | infinity t | finite t m e h => exact congrArg UnpackedFloat.infinity (sign_mul_comm s t)
  | zero s =>
    cases y with
    | notANumber | infinity t => rfl
    | zero t | finite t m e h => exact congrArg zero (sign_mul_comm s t)
  | finite s m e h =>
    cases y with
    | notANumber => rfl
    | infinity t => exact congrArg UnpackedFloat.infinity (sign_mul_comm s t)
    | zero t => exact congrArg zero (sign_mul_comm s t)
    | finite t m' e' h' =>
      show roundWithAccuracy spec (s * t) (m * m') (e + e') .exact =
        roundWithAccuracy spec (t * s) (m' * m) (e' + e) .exact
      rw [sign_mul_comm, Nat.mul_comm, Int.add_comm]

end Model

protected theorem add_comm (x y : Float) : x + y = y + x :=
  congrArg Float.ofModel (congrArg Float.Model.pack (unpacked_add_comm _ _ _))

protected theorem mul_comm (x y : Float) : x * y = y * x :=
  congrArg Float.ofModel (congrArg Float.Model.pack (unpacked_mul_comm _ _ _))

end Binary

/-! ## Numbers -/

namespace Number

protected theorem add_comm (x y : Number) : x.add y = y.add x := by
  cases x with
  | int m =>
    cases y with
    | int n => rw [add, add, Int64.add_comm]
    | float b => exact congrArg float (Binary.add_comm _ _)
  | float a =>
    cases y with
    | int n | float b => exact congrArg float (Binary.add_comm _ _)

protected theorem mul_comm (x y : Number) : x.mul y = y.mul x := by
  cases x with
  | int m =>
    cases y with
    | int n => rw [mul, mul, Int64.mul_comm]
    | float b => exact congrArg float (Binary.mul_comm _ _)
  | float a =>
    cases y with
    | int n | float b => exact congrArg float (Binary.mul_comm _ _)

end Number

end StackLang
