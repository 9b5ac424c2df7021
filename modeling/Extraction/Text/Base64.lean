import Extraction.Text.Utf8

/-!
Base64, three octets to four characters. The reader is strict: no other characters, padding at the
end only and complete. Two liberties remain: bits beyond the last whole octet may be anything, and
behind a whole group any number of padding characters may follow.
-/

namespace Extraction.Text.Base64

def digit (n : Nat) : Char :=
  if n < 26 then Char.ofNat (65 + n)
  else if n < 52 then Char.ofNat (71 + n)
  else if n < 62 then Char.ofNat (n - 4)
  else if n = 62 then '+'
  else '/'

def value? (c : Char) : Option Nat :=
  if 'A' ≤ c && c ≤ 'Z' then some (c.toNat - 65)
  else if 'a' ≤ c && c ≤ 'z' then some (c.toNat - 71)
  else if '0' ≤ c && c ≤ '9' then some (c.toNat + 4)
  else if c = '+' then some 62
  else if c = '/' then some 63
  else none

def octet (n : Nat) : UInt8 :=
  UInt8.ofNat n

def encodeChars : Octets → List Char
  | [] => []
  | [a] => [digit (a.toNat / 4), digit (a.toNat % 4 * 16), '=', '=']
  | [a, b] =>
    [digit (a.toNat / 4), digit (a.toNat % 4 * 16 + b.toNat / 16), digit (b.toNat % 16 * 4), '=']
  | a :: b :: c :: rest =>
    digit (a.toNat / 4) :: digit (a.toNat % 4 * 16 + b.toNat / 16) ::
      digit (b.toNat % 16 * 4 + c.toNat / 64) :: digit (c.toNat % 64) :: encodeChars rest

def encode (bs : Octets) : String :=
  String.ofList (encodeChars bs)

/-- A last group that two padding characters complete. -/
def oneOctet? (a b : Char) : Option Octets := do
  let a ← value? a
  let b ← value? b
  some [octet (a * 4 + b / 16)]

/-- A last group that one padding character completes. -/
def twoOctets? (a b c : Char) : Option Octets := do
  let a ← value? a
  let b ← value? b
  let c ← value? c
  some [octet (a * 4 + b / 16), octet (b % 16 * 16 + c / 4)]

def threeOctets? (a b c d : Char) : Option Octets := do
  let a ← value? a
  let b ← value? b
  let c ← value? c
  let d ← value? d
  some [octet (a * 4 + b / 16), octet (b % 16 * 16 + c / 4), octet (c % 4 * 64 + d)]

/-- Groups of four characters up to the end or the padding. -/
def decodeGroups : List Char → Option Octets
  | [] => some []
  | [a, b, c, d] =>
    if a = '=' then (if b = '=' && c = '=' && d = '=' then some [] else none)
    else if d = '=' then (if c = '=' then oneOctet? a b else twoOctets? a b c)
    else threeOctets? a b c d
  | a :: b :: c :: d :: rest =>
    if a = '=' then
      (if b = '=' && c = '=' && d = '=' && rest.all (· = '=') then some [] else none)
    else do
      let octets ← threeOctets? a b c d
      let others ← decodeGroups rest
      some (octets ++ others)
  | rest => if rest.all (· = '=') then some [] else none

def decodeChars (cs : List Char) : Option Octets :=
  if cs.head? = some '=' then none else decodeGroups cs

/-- The octets that a text stands for. -/
def decode? (s : String) : Option Octets :=
  decodeChars s.toList

end Extraction.Text.Base64
