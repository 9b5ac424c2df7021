/-!
Decimal text of whole numbers. Numbers of more than `digitLimit` digits are neither read nor
written, so that no request can buy a conversion of quadratic cost.
-/

namespace Extraction.Number

def digitLimit : Nat := 4300

/-- The decimal digits of a number, most significant first. -/
def digits (n : Nat) : List Char :=
  Nat.toDigits 10 n

def digitCount (n : Nat) : Nat :=
  (digits n).length

/-- The digits of `n`, filled up with zeros on the left to at least `width`. -/
def padded (width n : Nat) : List Char :=
  List.replicate (width - digitCount n) '0' ++ digits n

/-- The value of a digit sequence; every character counts as its distance from `0`. -/
def ofDigits (ds : List Char) : Nat :=
  ds.foldl (fun n d => 10 * n + (d.toNat - 48)) 0

def intChars (n : Int) : List Char :=
  if n < 0 then '-' :: digits n.natAbs else digits n.natAbs

/-- The decimal text of an integer, if it is short enough to be written. -/
def intText? (n : Int) : Option String :=
  if digitCount n.natAbs ≤ digitLimit then some (String.ofList (intChars n)) else none

/-- The decimal text of a number of unproblematic size. -/
def natText (n : Nat) : String :=
  String.ofList (digits n)

/-- The complaint about an integer that has too many digits. -/
def limitText (detail : String) : String :=
  s!"Exceeds the limit ({natText digitLimit} digits) for integer string conversion" ++ detail ++
    "; use sys.set_int_max_str_digits() to increase the limit"

def unwritableText : String :=
  limitText ""

def unreadableText (count : Nat) : String :=
  limitText s!": value has {natText count} digits"

end Extraction.Number
