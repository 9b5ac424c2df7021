import Extraction.Text.Hexadecimal

/-!
Halves of surrogate pairs. A JSON text can name half of a pair, which is no character and has no
UTF-8 form. Such a half is kept as the private-use character `0x100000` above it, so it counts as
one character and equals only itself. The characters from `0x10D800` to `0x10DFFF` lie outside this
coding: they could be sent themselves, but are taken for halves here.
-/

namespace Extraction.Text

def isHighSurrogate (n : Nat) : Bool :=
  0xD800 ≤ n && n ≤ 0xDBFF

def isLowSurrogate (n : Nat) : Bool :=
  0xDC00 ≤ n && n ≤ 0xDFFF

/-- The character that two halves of a pair stand for. -/
def pairChar (high low : Nat) : Char :=
  Char.ofNat (0x10000 + (high - 0xD800) * 0x400 + (low - 0xDC00))

/-- What is kept for a single 16-bit unit: a half, or the character of that number. -/
def unitChar (n : Nat) : Char :=
  if isHighSurrogate n || isLowSurrogate n then Char.ofNat (0x100000 + n) else Char.ofNat n

def isHalf (c : Char) : Bool :=
  0x10D800 ≤ c.toNat && c.toNat ≤ 0x10DFFF

/-- The number of a half. -/
def halfUnit (c : Char) : Nat :=
  c.toNat - 0x100000

/-- Is the text free of halves, so that it has a UTF-8 form? -/
def isWhole (s : String) : Bool :=
  s.toList.all fun c => !isHalf c

/-- A half as an escape of the number. -/
def halfEscape (c : Char) : List Char :=
  '\\' :: 'u' :: hexText 4 (halfUnit c)

/-- The text with three replacement characters for each half: one for each octet that the half would
take. -/
def replaceHalves (s : String) : String :=
  String.ofList (s.toList.flatMap fun c => if isHalf c then List.replicate 3 '\uFFFD' else [c])

end Extraction.Text
