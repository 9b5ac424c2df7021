import Extraction.Json.Fault
import Extraction.Number.Decimal
import Extraction.Number.FloatText
import Extraction.Value

/-!
Numbers in JSON text. A number with a fraction or an exponent is a double, any other number an
integer. Doubles are written in their shortest form; those without digits get names, as JSON has
none for them.
-/

namespace Extraction.Json

open Number

def floatStyle : FloatStyle := { plainStyle with infinity := "Infinity", notANumber := "NaN" }

/-- The digits before the point; a zero stands alone. -/
def readWhole : List Char → Option (List Char × List Char)
  | '0' :: rest => some (['0'], rest)
  | c :: rest =>
    if c.isDigit then some (c :: rest.takeWhile Char.isDigit, rest.dropWhile Char.isDigit) else none
  | [] => none

/-- A point with digits behind it; without digits the point is not part of the number. -/
def readFraction : List Char → List Char × List Char
  | '.' :: rest =>
    let ds := rest.takeWhile Char.isDigit
    if ds.isEmpty then ([], '.' :: rest) else (ds, rest.dropWhile Char.isDigit)
  | cs => ([], cs)

/-- An exponent; without digits the mark is not part of the number. -/
def readExponent (cs : List Char) : Option Int × List Char :=
  match cs with
  | [] => (none, [])
  | e :: rest =>
    if e == 'e' || e == 'E' then
      let (negative, body) :=
        match rest with
        | '-' :: r => (true, r)
        | '+' :: r => (false, r)
        | r => (false, r)
      let ds := body.takeWhile Char.isDigit
      if ds.isEmpty then (none, cs)
      else
        (some (if negative then -(ofDigits ds : Int) else ofDigits ds), body.dropWhile Char.isDigit)
    else (none, cs)

/-- A number, of which `start` is the text from its sign on. -/
def readMagnitude (start : List Char) (negative : Bool) (cs : List Char) :
    Except Fault (Value × List Char) :=
  match readWhole cs with
  | none => .error (.malformed start.length)
  | some (whole, rest) =>
    let (fraction, rest) := readFraction rest
    let (exponent, rest) := readExponent rest
    if fraction.isEmpty && exponent.isNone then
      if digitLimit < whole.length then .error (.longInteger whole.length)
      else .ok (.int (if negative then -(ofDigits whole : Int) else ofDigits whole), rest)
    else
      let x := Binary64.ofDecimal negative (ofDigits (whole ++ fraction))
        (exponent.getD 0 - fraction.length)
      .ok (.float x, rest)

def readNumber : List Char → Except Fault (Value × List Char)
  | '-' :: rest => readMagnitude ('-' :: rest) true rest
  | cs => readMagnitude cs false cs

end Extraction.Json
