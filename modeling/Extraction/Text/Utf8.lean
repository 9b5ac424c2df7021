/-!
UTF-8, written and read over lists of octets. Reading never fails: each longest piece that cannot
start a character becomes one replacement character.
-/

namespace Extraction.Text

abbrev Octets := List UInt8

def octets (s : String) : Octets :=
  s.toUTF8.toList

def replacement : Char := '\uFFFD'

/-- How many further octets a first octet asks for, and the range allowed for the next one. -/
def continuation (first : Nat) : Option (Nat × Nat × Nat) :=
  if first < 0x80 then some (0, 0x80, 0xBF)
  else if 0xC2 ≤ first && first ≤ 0xDF then some (1, 0x80, 0xBF)
  else if first = 0xE0 then some (2, 0xA0, 0xBF)
  else if first = 0xED then some (2, 0x80, 0x9F)
  else if 0xE1 ≤ first && first ≤ 0xEF then some (2, 0x80, 0xBF)
  else if first = 0xF0 then some (3, 0x90, 0xBF)
  else if 0xF1 ≤ first && first ≤ 0xF3 then some (3, 0x80, 0xBF)
  else if first = 0xF4 then some (3, 0x80, 0x8F)
  else none

/-- The bits that a first octet contributes. -/
def leadBits (first : Nat) : Nat :=
  if first < 0x80 then first
  else if first < 0xE0 then first - 0xC0
  else if first < 0xF0 then first - 0xE0
  else first - 0xF0

/-- A character whose reading has begun: its bits so far, the octets it still asks for, and the
range of the next one. -/
structure Pending where
  bits : Nat
  missing : Nat
  low : Nat
  high : Nat

/-- Reads octets, with the character begun before them, if any. -/
def readUtf8 : Option Pending → Octets → List Char
  | none, [] => []
  | some _, [] => [replacement]
  | some p, b :: bs =>
    if p.low ≤ b.toNat && b.toNat ≤ p.high then
      let bits := p.bits * 64 + (b.toNat - 0x80)
      if p.missing ≤ 1 then Char.ofNat bits :: readUtf8 none bs
      else readUtf8 (some ⟨bits, p.missing - 1, 0x80, 0xBF⟩) bs
    else
      replacement ::
        (match continuation b.toNat with
        | none => replacement :: readUtf8 none bs
        | some (0, _, _) => Char.ofNat b.toNat :: readUtf8 none bs
        | some (n, low, high) => readUtf8 (some ⟨leadBits b.toNat, n, low, high⟩) bs)
  | none, b :: bs =>
    match continuation b.toNat with
    | none => replacement :: readUtf8 none bs
    | some (0, _, _) => Char.ofNat b.toNat :: readUtf8 none bs
    | some (n, low, high) => readUtf8 (some ⟨leadBits b.toNat, n, low, high⟩) bs

def ofOctets (bs : Octets) : String :=
  String.ofList (readUtf8 none bs)

/-- The text whose UTF-8 form the octets are, if there is one. -/
def wholeText? (bs : Octets) : Option String :=
  let s := ofOctets bs
  if octets s = bs then some s else none

/-! ### Octets as characters -/

/-- Each octet as the character of its number. -/
def latinChars (bs : Octets) : List Char :=
  bs.map fun b => Char.ofNat b.toNat

def latinOctets (cs : List Char) : Octets :=
  cs.map fun c => UInt8.ofNat c.toNat

/-- Octets as UTF-8 or, where they are not, each as a character. -/
def lenientText (bs : Octets) : String :=
  (wholeText? bs).getD (String.ofList (latinChars bs))

end Extraction.Text
