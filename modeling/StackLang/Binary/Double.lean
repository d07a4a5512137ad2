/-
Doubles as exact numbers: reading the fields of a bit pattern, and rounding a ratio of naturals to
the nearest double. A finite double is `± m · 2 ^ q` with `m < 2 ^ 53` and `-1074 ≤ q`. Powers of two
are the units of doubles, powers of ten those of the decimals that are rounded to them.
-/

namespace StackLang

/-- Two to the power `n`. -/
def pow2 (n : Nat) : Nat := Nat.pow 2 n

/-- Ten to the power `n`. -/
def pow10 (n : Nat) : Nat := Nat.pow 10 n

namespace Binary

/-- What a double stands for. -/
inductive Double where
  | nan
  | infinite (negative : Bool)
  | finite (negative : Bool) (m : Nat) (q : Int)
  deriving DecidableEq, Repr

/-- The least exponent, that of the subnormal numbers. -/
def minExponent : Int := -1074

/-- Reads sign, exponent field and fraction of a bit pattern. -/
def Double.ofBits (bits : UInt64) : Double :=
  let n := bits.toNat
  let negative := pow2 63 ≤ n
  let field : Nat := n / pow2 52 % pow2 11
  let fraction : Nat := n % pow2 52
  if field = 2047 then
    if fraction = 0 then .infinite negative else .nan
  else if field = 0 then .finite negative fraction minExponent
  else .finite negative (pow2 52 + fraction) ((field : Int) - 1075)

/-- What a floating-point value stands for. -/
def Double.ofFloat (x : Float) : Double := .ofBits x.toBits

/-! ## Rounding -/

/-- The integer nearest to `num / den`; a half goes to the even neighbour. -/
def roundHalfEven (num den : Nat) : Nat :=
  let floor := num / den
  let twice := 2 * (num % den)
  if twice < den ∨ (twice = den ∧ floor % 2 = 0) then floor else floor + 1

/-- The integer nearest to `num / den / 2 ^ q`, a half going to the even neighbour. -/
def roundAt (num den : Nat) (q : Int) : Nat :=
  roundHalfEven (num * pow2 (-q).toNat) (den * pow2 q.toNat)

/-- The largest `e` with `2 ^ e ≤ num / den`, for a positive ratio. -/
def floorLog2 (num den : Nat) : Int :=
  let e : Int := (num.log2 : Int) - den.log2
  if den * pow2 e.toNat ≤ num * pow2 (-e).toNat then e else e - 1

/-- The bit pattern of infinity. -/
def infinityBits : Nat := 2047 * pow2 52

/-- The bit pattern of the double nearest to `num / den`. The significand is rounded at the exponent
of the ratio's binade; adding it to the exponent's field lets a carry move on to the next binade,
and what passes the largest double is infinity. -/
def magnitudeBits (num den : Nat) : Nat :=
  if num = 0 then 0
  else
    let q := max (floorLog2 num den - 52) minExponent
    min ((q - minExponent).toNat * pow2 52 + roundAt num den q) infinityBits

/-- The double nearest to `± num / den`. -/
def ofRatio (negative : Bool) (num den : Nat) : Float :=
  Float.ofBits (UInt64.ofNat (magnitudeBits num den + if negative then pow2 63 else 0))

/-- The infinite double of a sign. -/
def infinity (negative : Bool) : Float :=
  Float.ofBits (UInt64.ofNat (infinityBits + if negative then pow2 63 else 0))

/-- The double that is no number; its sign says nothing. -/
def nan (negative : Bool) : Float :=
  Float.ofBits (UInt64.ofNat (infinityBits + pow2 51 + if negative then pow2 63 else 0))

/-- The double nearest to an integer. -/
def ofInt (n : Int) : Float := ofRatio (n < 0) n.natAbs 1

end Binary

end StackLang
