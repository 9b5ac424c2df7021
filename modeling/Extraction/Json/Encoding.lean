import Extraction.Text.Half
import Extraction.Text.Utf8

/-!
The encodings in which JSON text is sent. A JSON text starts with two ASCII characters, or is one of
them alone, so the zeros among its first octets tell the encoding. Halves of surrogate pairs are let
through.
-/

namespace Extraction.Json

open Text (Octets)

inductive Encoding where
  | utf8
  | utf16 (bigEndian : Bool)
  | utf32 (bigEndian : Bool)
deriving DecidableEq, Repr

namespace Encoding

/-- The encoding that the first octets of a text show. -/
def detect : Octets → Encoding
  | a :: b :: c :: d :: _ =>
    if a = 0 then (if b = 0 then .utf32 true else .utf16 true)
    else if b = 0 then (if c = 0 && d = 0 then .utf32 false else .utf16 false)
    else .utf8
  | [a, b] => if a = 0 then .utf16 true else if b = 0 then .utf16 false else .utf8
  | _ => .utf8

/-- Pairs of octets as 16-bit units; none if an octet is left over. -/
def units? (bigEndian : Bool) : Octets → Option (List Nat)
  | [] => some []
  | [_] => none
  | a :: b :: rest =>
    (units? bigEndian rest).map fun units =>
      (if bigEndian then a.toNat * 256 + b.toNat else b.toNat * 256 + a.toNat) :: units

/-- The characters of 16-bit units. -/
def ofUnits : List Nat → List Char
  | high :: low :: rest =>
    if Text.isHighSurrogate high && Text.isLowSurrogate low then
      Text.pairChar high low :: ofUnits rest
    else Text.unitChar high :: ofUnits (low :: rest)
  | [n] => [Text.unitChar n]
  | [] => []

/-- The characters whose numbers are written with two 16-bit units each; none if a number is too
large or a unit is left over. -/
def ofUnitPairs? (bigEndian : Bool) : List Nat → Option (List Char)
  | a :: b :: rest =>
    let n := if bigEndian then a * 65536 + b else b * 65536 + a
    if n ≤ 0x10FFFF then (ofUnitPairs? bigEndian rest).map (Text.unitChar n :: ·) else none
  | [_] => none
  | [] => some []

def decode? : Encoding → Octets → Option (List Char)
  | .utf8, bs => (Text.wholeText? bs).map String.toList
  | .utf16 bigEndian, bs => (units? bigEndian bs).map ofUnits
  | .utf32 bigEndian, bs => (units? bigEndian bs).bind (ofUnitPairs? bigEndian)

end Encoding

/-- The text that octets stand for. A byte order mark at the start is no part of it. -/
def textOf? (bs : Octets) : Option String :=
  match bs with
  | 0xEF :: 0xBB :: 0xBF :: rest => (Encoding.utf8.decode? rest).map String.ofList
  | _ => ((Encoding.detect bs).decode? bs).map String.ofList

end Extraction.Json
