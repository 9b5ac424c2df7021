import Extraction.Number.Binary64
import Extraction.Number.Decimal

/-!
The shortest decimal that reads back as a given double. The reals that round to a double form an
interval; among the decimal grids of 1, 2, … 17 digits the first one that meets the interval wins,
and on it the point nearest to the double, in a tie the one whose last digit is even.
-/

namespace Extraction.Number

/-- `significand · 10^exponent`. -/
structure Decimal where
  significand : Nat
  exponent : Int
deriving DecidableEq, Repr

/-- The interval of reals that round to a magnitude, and the magnitude itself, over one
denominator. The ends belong to it if the significand is even. -/
structure RoundingInterval where
  low : Nat
  value : Nat
  high : Nat
  denominator : Nat
  closed : Bool

def Magnitude.interval (x : Magnitude) : RoundingInterval :=
  let ulp := twoPow x.shift
  let below := if x.significand = twoPow 52 && x.shift ≠ 0 then ulp else 2 * ulp
  ⟨4 * x.units - below, 4 * x.units, 4 * x.units + 2 * ulp, 4 * Magnitude.unitsPerOne,
    x.significand % 2 == 0⟩

namespace RoundingInterval

/-- Numerator and denominator of `d · 10^k` over the interval's denominator. -/
def scaled (i : RoundingInterval) (d : Nat) (k : Int) : Nat × Nat :=
  if k < 0 then (d * i.denominator, tenPow k.natAbs)
  else (d * tenPow k.natAbs * i.denominator, 1)

def contains (i : RoundingInterval) (d : Nat) (k : Int) : Bool :=
  let (n, m) := i.scaled d k
  if i.closed then i.low * m ≤ n && n ≤ i.high * m else i.low * m < n && n < i.high * m

/-- The distance of `d · 10^k` from the value, for comparison on one grid. -/
def distance (i : RoundingInterval) (d : Nat) (k : Int) : Nat :=
  let (n, m) := i.scaled d k
  (n - i.value * m) + (i.value * m - n)

/-- The largest `d` with `d · 10^k` not above the value. -/
def gridFloor (i : RoundingInterval) (k : Int) : Nat :=
  if k < 0 then i.value * tenPow k.natAbs / i.denominator
  else i.value / (i.denominator * tenPow k.natAbs)

/-- The exponent of the value's first decimal digit. -/
def leading (i : RoundingInterval) : Int :=
  if i.denominator ≤ i.value then (digitCount (i.value / i.denominator) : Int) - 1
  else -(digitCount ((i.denominator - 1) / i.value) : Int)

/-- The nearer of `d` and `d + 1` on the grid of multiples of `10^k`, in a tie the even one. -/
def nearer (i : RoundingInterval) (d : Nat) (k : Int) : Nat :=
  if i.distance d k < i.distance (d + 1) k then d
  else if i.distance (d + 1) k < i.distance d k then d + 1
  else if d % 2 = 0 then d
  else d + 1

/-- The better of the value's two neighbours on the grid of multiples of `10^k`, if the interval
has one of them. -/
def onGrid (i : RoundingInterval) (k : Int) : Option Decimal :=
  let d := i.gridFloor k
  match i.contains d k, i.contains (d + 1) k with
  | true, true => some ⟨i.nearer d k, k⟩
  | true, false => some ⟨d, k⟩
  | false, true => some ⟨d + 1, k⟩
  | false, false => none

/-- The first hit on the grids of `count + 1` digits downwards from the exponent `k`. -/
def search (i : RoundingInterval) : (count : Nat) → (k : Int) → Decimal
  | 0, k => ⟨i.gridFloor k, k⟩
  | count + 1, k => (i.onGrid k).getD (search i count (k - 1))

end RoundingInterval

/-- The shortest decimal that rounds to the magnitude, and of the shortest the nearest. -/
def Magnitude.shortest (x : Magnitude) : Decimal :=
  if x.significand = 0 then ⟨0, 0⟩ else x.interval.search 17 x.interval.leading

end Extraction.Number
