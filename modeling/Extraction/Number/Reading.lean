import Extraction.Number.Binary64
import Extraction.Number.Decimal
import Extraction.Text.Blank
import Extraction.Text.DecimalDigit

/-!
Numbers as people type them into settings: blanks around them, a sign, digits of any script,
single underscores between digits.
-/

namespace Extraction.Number

inductive ReadingFault where
  | malformed
  | tooLong (count : Nat)
deriving DecidableEq, Repr

/-- Digits of every script become ASCII digits and blanks spaces; ASCII stays as it is. None if
another character occurs. -/
def asciiForm : List Char → Option (List Char)
  | [] => some []
  | c :: cs =>
    if c.toNat < 127 then (asciiForm cs).map (c :: ·)
    else if Text.isBlank c then (asciiForm cs).map (' ' :: ·)
    else
      match Text.decimalValue? c with
      | some d => (asciiForm cs).map (Char.ofNat (48 + d) :: ·)
      | none => none

def isSpace (c : Char) : Bool :=
  c == ' ' || (9 ≤ c.toNat && c.toNat ≤ 13)

def trimSpaces (cs : List Char) : List Char :=
  ((cs.dropWhile isSpace).reverse.dropWhile isSpace).reverse

/-- The sign, true if negative, and what follows it. -/
def signed : List Char → Bool × List Char
  | '-' :: cs => (true, cs)
  | '+' :: cs => (false, cs)
  | cs => (false, cs)

/-- Removes the underscores that stand between two digits; none if one stands elsewhere. -/
def withoutUnderscores (afterDigit : Bool) : List Char → Option (List Char)
  | [] => some []
  | '_' :: c :: cs =>
    if afterDigit && c.isDigit then (withoutUnderscores true cs).map (c :: ·) else none
  | ['_'] => none
  | c :: cs => (withoutUnderscores c.isDigit cs).map (c :: ·)

def integerChars (cs : List Char) : Except ReadingFault Int :=
  let (negative, body) := signed (cs.dropWhile isSpace)
  let run := body.takeWhile fun c => c.isDigit || c == '_'
  let tail := body.dropWhile fun c => c.isDigit || c == '_'
  match withoutUnderscores false run with
  | none => .error .malformed
  | some ds =>
    if digitLimit < ds.length then .error (.tooLong ds.length)
    else if ds.isEmpty || !tail.all isSpace then .error .malformed
    else .ok (if negative then -(ofDigits ds : Int) else ofDigits ds)

def readInteger (s : String) : Except ReadingFault Int :=
  match asciiForm s.toList with
  | some cs => integerChars cs
  | none => .error .malformed

/-- The names of the values that have no digits. -/
def special? (negative : Bool) (cs : List Char) : Option Binary64 :=
  let word := String.ofList (cs.map Char.toLower)
  if word == "inf" || word == "infinity" then some (.infinite negative)
  else if word == "nan" then some .nan
  else none

/-- The exponent after the mark; none if its digits are missing. -/
def exponentChars (cs : List Char) : Option Int :=
  let (negative, ds) := signed cs
  if ds.isEmpty || !ds.all Char.isDigit then none
  else some (if negative then -(ofDigits ds : Int) else ofDigits ds)

/-- `digits[.digits][e[sign]digits]`, with a digit before the exponent. -/
def floatBody (negative : Bool) (cs : List Char) : Option Binary64 :=
  let whole := cs.takeWhile Char.isDigit
  let rest := cs.dropWhile Char.isDigit
  let (fraction, rest) :=
    match rest with
    | '.' :: r => (r.takeWhile Char.isDigit, r.dropWhile Char.isDigit)
    | r => ([], r)
  if whole.isEmpty && fraction.isEmpty then none
  else
    let exponent :=
      match rest with
      | [] => some 0
      | c :: r => if c == 'e' || c == 'E' then exponentChars r else none
    exponent.map fun e =>
      Binary64.ofDecimal negative (ofDigits (whole ++ fraction)) (e - fraction.length)

def floatChars (cs : List Char) : Option Binary64 := do
  let cs ← withoutUnderscores false (trimSpaces cs)
  let (negative, body) := signed cs
  (special? negative body).orElse fun _ => floatBody negative body

def readFloat? (s : String) : Option Binary64 :=
  (asciiForm s.toList).bind floatChars

end Extraction.Number
