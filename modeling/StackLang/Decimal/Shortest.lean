/-
The shortest decimal of a double. The reals that round to `m · 2 ^ q` form an interval around it.
Among the grids of multiples of a power of ten, the coarsest one with a point in that interval gives
the decimal with the fewest digits; of two points in it the nearer one is taken, and the upper one
when both are equally near.
-/
import StackLang.Decimal

namespace StackLang.Decimal

/-- The interval of reals that round to `m · 2 ^ q`, in quarters of the unit `2 ^ q`. -/
structure Interval where
  low : Nat
  high : Nat
  closed : Bool
  deriving DecidableEq, Repr

/-- The interval of `m · 2 ^ q`. It reaches half a unit to each side, but only a quarter below a
power of two whose lower neighbours are twice as dense; its ends belong to it when `m` is even. -/
def Interval.around (m : Nat) (q : Int) : Interval where
  low := if m = pow2 52 ∧ q ≠ Binary.minExponent then 4 * m - 1 else 4 * m - 2
  high := 4 * m + 2
  closed := m % 2 = 0

/-- Whether `num / den` lies in the interval. -/
def Interval.holds (i : Interval) (num den : Nat) : Bool :=
  if i.closed then i.low * den ≤ num && num ≤ i.high * den
  else i.low * den < num && num < i.high * den

/-- The point of the grid of multiples of `10 ^ g` that is nearest to `m · 2 ^ q` among those in the
interval, if there is one. A quarter of `2 ^ q` is the unit: there the double is `4 · m` and the
grid's step is `step / den`. -/
def gridPoint? (m : Nat) (q : Int) (g : Int) : Option Nat :=
  let step := pow10 g.toNat * pow2 (2 - q).toNat
  let den := pow10 (-g).toNat * pow2 (q - 2).toNat
  let interval := Interval.around m q
  let below := 4 * m * den / step
  let rest := 4 * m * den % step
  match interval.holds (below * step) den, interval.holds ((below + 1) * step) den with
  | true, true => some (if 2 * rest < step then below else below + 1)
  | true, false => some below
  | false, true => some (below + 1)
  | false, false => none

/-- An exponent of ten above that of `m · 2 ^ q`, from the logarithm to base two. -/
def coarsestGrid (m : Nat) (q : Int) : Int :=
  (m.log2 + q + 1) * 30103 / 100000 + 1

/-- Tries `fuel` grids, from the multiples of `10 ^ g` down to finer ones; after them the number is
written out in full. -/
def searchGrids (m : Nat) (q : Int) : Nat → Int → Decimal
  | 0, _ => ⟨m * pow2 q.toNat * (pow10 (-q).toNat / pow2 (-q).toNat), min q 0⟩
  | fuel + 1, g =>
    match gridPoint? m q g with
    | some n => ⟨n, g⟩
    | none => searchGrids m q fuel (g - 1)

/-- The shortest decimal that rounds to `m · 2 ^ q`, for `m` positive. Seventeen digits always
suffice; the search starts up to two grids too coarse. -/
def shortest (m : Nat) (q : Int) : Decimal :=
  searchGrids m q 20 (coarsestGrid m q)

end StackLang.Decimal
