import Extraction.Json.Fault
import Extraction.Text.Half

/-!
Strings in JSON text. Written, only quotes, backslashes and control characters are escaped. Read,
every escape of the standard is known, and the escape of half a surrogate pair stands for that half.
-/

namespace Extraction.Json

/-! ### Writing -/

/-- One character inside a string. -/
def escapeChar (c : Char) : List Char :=
  if c = '"' then ['\\', '"']
  else if c = '\\' then ['\\', '\\']
  else if c = '\n' then ['\\', 'n']
  else if c = '\r' then ['\\', 'r']
  else if c = '\t' then ['\\', 't']
  else if c = '\x08' then ['\\', 'b']
  else if c = '\x0c' then ['\\', 'f']
  else if c.toNat < 0x20 then
    ['\\', 'u', '0', '0', Text.hexDigit (c.toNat / 16), Text.hexDigit (c.toNat % 16)]
  else [c]

def stringChars (s : String) : List Char :=
  '"' :: s.toList.flatMap escapeChar ++ ['"']

/-! ### Reading -/

/-- Four hexadecimal digits with at least one more character behind them. -/
def readHex4 : List Char → Option (Nat × List Char)
  | a :: b :: c :: d :: e :: rest => do
    let a ← Text.hexValue? a
    let b ← Text.hexValue? b
    let c ← Text.hexValue? c
    let d ← Text.hexValue? d
    some (((a * 16 + b) * 16 + c) * 16 + d, e :: rest)
  | _ => none

/-- The character of a `\u` escape, read behind the `u`; a high surrogate takes the escape of a low
one with it. The error says how much text is left at the `u` whose digits are wrong. -/
def readUnit (cs : List Char) : Except Fault (Char × List Char) :=
  match readHex4 cs with
  | none => .error (.malformed (cs.length + 1))
  | some (n, rest) =>
    if Text.isHighSurrogate n then
      match rest with
      | '\\' :: 'u' :: tail =>
        if tail.length < 5 then .ok (Text.unitChar n, rest)
        else
          match readHex4 tail with
          | none => .error (.malformed (tail.length + 1))
          | some (low, after) =>
            if Text.isLowSurrogate low then .ok (Text.pairChar n low, after)
            else .ok (Text.unitChar n, rest)
      | _ => .ok (Text.unitChar n, rest)
    else .ok (Text.unitChar n, rest)

/-- What a one-letter escape stands for. -/
def simpleEscape? (c : Char) : Option Char :=
  match c with
  | '"' => some '"'
  | '\\' => some '\\'
  | '/' => some '/'
  | 'b' => some '\x08'
  | 'f' => some '\x0c'
  | 'n' => some '\n'
  | 'r' => some '\r'
  | 't' => some '\t'
  | _ => none

/-- The rest of a string, read behind its opening quote, where `opening` characters were left. The
fuel is the number of characters left. -/
def readString (opening : Nat) :
    (fuel : Nat) → List Char → Except Fault (List Char × List Char)
  | 0, _ => .error (.malformed opening)
  | _ + 1, [] => .error (.malformed opening)
  | _ + 1, '"' :: rest => .ok ([], rest)
  | _ + 1, ['\\'] => .error (.malformed opening)
  | fuel + 1, '\\' :: 'u' :: rest => do
    let (c, rest) ← readUnit rest
    let (cs, rest) ← readString opening fuel rest
    .ok (c :: cs, rest)
  | fuel + 1, '\\' :: e :: rest =>
    match simpleEscape? e with
    | none => .error (.malformed (rest.length + 2))
    | some c => do
      let (cs, rest) ← readString opening fuel rest
      .ok (c :: cs, rest)
  | fuel + 1, c :: rest =>
    if c.toNat < 0x20 then .error (.malformed (rest.length + 1))
    else do
      let (cs, rest) ← readString opening fuel rest
      .ok (c :: cs, rest)

/-- A string, read behind its opening quote. -/
def readText (cs : List Char) : Except Fault (String × List Char) :=
  (readString (cs.length + 1) (cs.length + 1) cs).map fun (text, rest) => (String.ofList text, rest)

end Extraction.Json
