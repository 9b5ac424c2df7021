import Extraction.Number.Power

/-!
Double-precision numbers, exactly. A finite double is a sign and a magnitude
`significand · 2^shift`, counted in units of `2^-1074`. Each magnitude has one representation, so
equality of doubles is equality of the data; the two zeros differ and there is one NaN.

Every operation is the exact result rounded to the nearest double, a tie to the even significand.
-/

namespace Extraction.Number

/-- What makes a representation the only one of its magnitude. -/
def Canonical (significand shift : Nat) : Prop :=
  significand < twoPow 53 ∧ (twoPow 52 ≤ significand ∨ shift = 0) ∧ shift ≤ 2045

instance (significand shift : Nat) : Decidable (Canonical significand shift) := by
  unfold Canonical; infer_instance

structure Magnitude where
  significand : Nat
  shift : Nat
  canonical : Canonical significand shift
deriving DecidableEq, Repr

inductive Binary64 where
  | finite (negative : Bool) (magnitude : Magnitude)
  | infinite (negative : Bool)
  | nan
deriving DecidableEq, Repr

/-- The quotient to the nearest whole number, a tie to the even one. -/
def divRound (n d : Nat) : Nat :=
  let q := n / d
  if 2 * (n % d) < d then q
  else if d < 2 * (n % d) then q + 1
  else if q % 2 = 0 then q else q + 1

namespace Magnitude

/-- The number of units `2^-1074`. -/
def units (x : Magnitude) : Nat :=
  x.significand * twoPow x.shift

def unitsPerOne : Nat := twoPow 1074

def nil : Magnitude := ⟨0, 0, by decide⟩

instance : Inhabited Magnitude := ⟨nil⟩

/-- None if the representation is beyond the largest double. -/
def mk? (significand shift : Nat) : Option Magnitude :=
  if h : Canonical significand shift then some ⟨significand, shift, h⟩ else none

/-- The magnitude nearest to `num / den`; none if that is beyond the largest double. -/
def round (num den : Nat) : Option Magnitude :=
  let scaled := num * unitsPerOne
  let shift := (scaled / den).log2 - 52
  let significand := divRound scaled (den * twoPow shift)
  if significand = twoPow 53 then mk? (twoPow 52) (shift + 1) else mk? significand shift

end Magnitude

namespace Binary64

def zero : Binary64 := .finite false .nil

instance : Inhabited Binary64 := ⟨zero⟩

def isFinite : Binary64 → Bool
  | .finite _ _ => true
  | _ => false

/-- The double nearest to `± num / den`. -/
def ofRatio (negative : Bool) (num den : Nat) : Binary64 :=
  (Magnitude.round num den).elim (.infinite negative) (.finite negative)

/-- The double nearest to an integer, if the integer is within the range of doubles. -/
def ofInt? (n : Int) : Option Binary64 :=
  (Magnitude.round n.natAbs 1).map (.finite (n < 0))

/-- The double nearest to `± digits · 10^exponent`. Exponents far beyond the range are decided by
the position of the first digit, without forming the power. -/
def ofDecimal (negative : Bool) (digits : Nat) (exponent : Int) : Binary64 :=
  let first := (Nat.toDigits 10 digits).length + exponent
  if digits = 0 || first < -330 then .finite negative .nil
  else if 310 < first then .infinite negative
  else if exponent < 0 then ofRatio negative digits (tenPow exponent.natAbs)
  else ofRatio negative (digits * tenPow exponent.natAbs) 1

/-- The quotient by a positive whole number. -/
def divNat (x : Binary64) (n : Nat) : Binary64 :=
  match x with
  | .finite negative m => ofRatio negative m.units (Magnitude.unitsPerOne * n)
  | other => other

/-- The largest whole number not above a finite double. -/
def floor? : Binary64 → Option Int
  | .finite negative m =>
    let q := m.units / Magnitude.unitsPerOne
    if negative then
      some (if m.units % Magnitude.unitsPerOne = 0 then -q else -q - 1)
    else some q
  | _ => none

end Binary64

end Extraction.Number
