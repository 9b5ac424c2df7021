import Extraction.Number.Shortest

/-!
The text of a double: the shortest digits that read back, positional while the first digit stands
at `10^-4` to `10^15`, otherwise with an exponent of at least two digits.
-/

namespace Extraction.Number

/-- How the digits of a double are laid out. -/
structure FloatStyle where
  leastPositional : Int
  mostPositional : Int
  exponentWidth : Nat
  infinity : String
  notANumber : String

def plainStyle : FloatStyle := ⟨-4, 15, 2, "inf", "nan"⟩

/-- The digits without the zeros at their end. -/
def dropTrailingZeros (ds : List Char) : List Char :=
  (ds.reverse.dropWhile (· == '0')).reverse

/-- Digits with a point after the first one, unless it is the only one. -/
def pointAfterFirst : List Char → List Char
  | [] => []
  | [d] => [d]
  | d :: ds => d :: '.' :: ds

/-- `ds` are the digits; the first one counts multiples of `10^first`. -/
def positional (ds : List Char) (first : Int) : List Char :=
  if first < 0 then '0' :: '.' :: List.replicate (first.natAbs - 1) '0' ++ ds
  else
    let whole := ds.take (first.natAbs + 1)
    let fraction := ds.drop (first.natAbs + 1)
    whole ++ List.replicate (first.natAbs + 1 - whole.length) '0' ++
      '.' :: (if fraction.isEmpty then ['0'] else fraction)

def scientific (style : FloatStyle) (ds : List Char) (first : Int) : List Char :=
  pointAfterFirst ds ++ 'e' :: (if first < 0 then '-' else '+') ::
    padded style.exponentWidth first.natAbs

def Magnitude.chars (style : FloatStyle) (x : Magnitude) : List Char :=
  if x.significand = 0 then ['0', '.', '0']
  else
    let ds := digits x.shortest.significand
    let first := x.shortest.exponent + ds.length - 1
    let ds := dropTrailingZeros ds
    if style.leastPositional ≤ first && first ≤ style.mostPositional then positional ds first
    else scientific style ds first

def Binary64.text (style : FloatStyle) : Binary64 → String
  | .finite negative m =>
    String.ofList (if negative then '-' :: m.chars style else m.chars style)
  | .infinite negative => if negative then "-" ++ style.infinity else style.infinity
  | .nan => style.notANumber

end Extraction.Number
