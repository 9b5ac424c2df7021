import Extraction.Calendar.Epoch
import Extraction.Calendar.IsoReader
import Extraction.Number.Reading
import Extraction.Value

/-!
Timestamps of stored documents. They are written as RFC 3339 text. Read are such text, with some
liberties; a date alone, as its midnight; and numbers, as seconds or, if they are large, as
milliseconds since 1970, which may also be written as text. The liberties, the bounds and the
rounding are those of pydantic, which reads the timestamps of a record.
-/

namespace Extraction.Calendar.Timestamp

open Number

/-! ### Writing -/

def offsetChars : Option Offset → List Char
  | none => []
  | some o => if o = .utc then ['Z'] else o.isoChars

def chars (t : DateTime) : List Char :=
  t.date.isoChars ++ 'T' :: t.time.isoChars ++ offsetChars t.offset

def text (t : DateTime) : String :=
  String.ofList (chars t)

/-! ### Reading -/

inductive Fault where
  | wrongKind
  /-- A number that stands for no instant in the years 0 to 9999. -/
  | outOfRange
  /-- An instant in the year 0, which has no date. -/
  | yearZero
  | unreadableText
  /-- The text holds half of a surrogate pair. -/
  | brokenText
deriving DecidableEq, Repr

/-- Years, months and days, with the year 0 among the years. -/
structure Ymd where
  year : Nat
  month : Nat
  day : Nat
deriving DecidableEq, Repr

def Ymd.isDate (d : Ymd) : Bool :=
  1 ≤ d.month && d.month ≤ 12 && 1 ≤ d.day && d.day ≤ daysInMonth d.year d.month

/-- `YYYY-MM-DD` at the start of a text. -/
def readYmd (cs : List Char) : Option (Ymd × List Char) := do
  let (year, rest) ← Iso.readDigits 0 4 cs
  let rest ← Iso.hyphen true rest
  let (month, rest) ← Iso.readDigits 0 2 rest
  let rest ← Iso.hyphen true rest
  let (day, rest) ← Iso.readDigits 0 2 rest
  let d : Ymd := ⟨year, month, day⟩
  if d.isDate then some (d, rest) else none

/-- A fraction of a second as microseconds; pydantic drops the digits beyond the sixth. -/
def fractionMicroseconds (ds : List Char) : Nat :=
  let kept := ds.take 6
  ofDigits kept * tenPow (6 - kept.length)

/-- The seconds of a time, with their fraction after a point or a comma, if there are any. -/
def readSeconds : List Char → Option (Nat × Nat × List Char)
  | ':' :: rest => do
    let (second, rest) ← Iso.readDigits 0 2 rest
    match rest with
    | c :: tail =>
      if c == '.' || c == ',' then
        let ds := tail.takeWhile Char.isDigit
        if ds.isEmpty then none
        else some (second, fractionMicroseconds ds, tail.dropWhile Char.isDigit)
      else some (second, 0, rest)
    | [] => some (second, 0, [])
  | rest => some (0, 0, rest)

def readTime (cs : List Char) : Option (Time × List Char) := do
  let (hour, rest) ← Iso.readDigits 0 2 cs
  match rest with
  | ':' :: rest => do
    let (minute, rest) ← Iso.readDigits 0 2 rest
    let (second, micro, rest) ← readSeconds rest
    let time ← Time.of? hour minute second micro
    some (time, rest)
  | _ => none

/-- Hours and minutes of an offset, with or without a colon, up to the end of the text. -/
def readOffset (negative : Bool) (cs : List Char) : Option Offset := do
  let (hour, rest) ← Iso.readDigits 0 2 cs
  let rest := if rest.head? == some ':' then rest.drop 1 else rest
  let (minute, rest) ← Iso.readDigits 0 2 rest
  if rest.isEmpty then do
    let time ← Time.of? hour minute 0 0
    some (.of negative time)
  else none

/-- What stands behind a time. -/
def readZone : List Char → Option (Option Offset)
  | [] => some none
  | c :: rest =>
    if c == 'Z' || c == 'z' then (if rest.isEmpty then some (some .utc) else none)
    else if c == '+' then (readOffset false rest).map some
    else if c == '-' || c == '\u2212' then (readOffset true rest).map some
    else none

/-- What pydantic takes between a date and a time. -/
def isSeparator (c : Char) : Bool :=
  c == 'T' || c == 't' || c == ' ' || c == '_'

/-- A date with a time. -/
def readText (cs : List Char) : Option (Ymd × Time × Option Offset) := do
  let (day, rest) ← readYmd cs
  match rest with
  | c :: rest =>
    if isSeparator c then do
      let (time, rest) ← readTime rest
      let offset ← readZone rest
      some (day, time, offset)
    else none
  | [] => none

/-- A date alone stands for its midnight. -/
def readDay (cs : List Char) : Option (Ymd × Time × Option Offset) := do
  let (day, rest) ← readYmd cs
  if rest.isEmpty then some (day, .midnight, none) else none

/-- The date-time of a day, if the day can be kept. -/
def keep : Ymd × Time × Option Offset → Except Fault DateTime
  | (day, time, offset) =>
    match Date.ofYmd? day.year day.month day.day with
    | some date => .ok ⟨date, time, offset⟩
    | none => .error .yearZero

/-! ### Numbers -/

/-- Numbers up to this are seconds, larger ones milliseconds: where pydantic draws the line. -/
def secondsLimit : Nat := 20000000000

/-- The first second of the year 0, and the first that pydantic takes. -/
def firstSecond : Int := -62167219200

/-- The last second of the year 9999, and the last that pydantic takes. -/
def lastSecond : Int := 253402300799

/-- The instant of a whole number of seconds and further microseconds. -/
def ofSeconds (seconds : Int) (micro : Nat) : Except Fault DateTime :=
  let whole := seconds + (micro / 1000000 : Nat)
  if whole < firstSecond || lastSecond < whole then .error .outOfRange
  else
    match DateTime.ofEpoch? whole (micro % 1000000) with
    | some t => .ok t
    | none => .error .yearZero

/-- The instant of a whole number of milliseconds and further microseconds. -/
def ofMilliseconds (n : Int) (micro : Nat) : Except Fault DateTime :=
  ofSeconds (n / 1000) ((n % 1000).toNat * 1000 + micro)

def ofInt (n : Int) : Except Fault DateTime :=
  if n.natAbs ≤ secondsLimit then ofSeconds n 0 else ofMilliseconds n 0

/-- How far a double lies above the whole number below it, as a double. -/
def fraction (negative : Bool) (m : Magnitude) : Magnitude :=
  let rest := m.units % Magnitude.unitsPerOne
  let above := if negative && rest ≠ 0 then Magnitude.unitsPerOne - rest else rest
  (Magnitude.round above Magnitude.unitsPerOne).getD .nil

/-- A fraction in parts of which `count` make one. The product is rounded to a double and then to a
whole number, a half upwards. -/
def parts (count : Nat) (m : Magnitude) : Nat :=
  match Magnitude.round (m.units * count) Magnitude.unitsPerOne with
  | some x => (2 * x.units + Magnitude.unitsPerOne) / (2 * Magnitude.unitsPerOne)
  | none => 0

def ofFloat : Binary64 → Except Fault DateTime
  | .finite negative m =>
    match (Binary64.finite negative m).floor? with
    | some n =>
      let f := fraction negative m
      if m.units ≤ secondsLimit * Magnitude.unitsPerOne then ofSeconds n (parts 1000000 f)
      else ofMilliseconds n (parts 1000 f)
    | none => .error .outOfRange
  | _ => .error .outOfRange

/-- The largest whole number that pydantic reads in a text, where its numbers have 64 bits. -/
def wholeLimit : Nat := 9223372036854775807

/-- A number with an optional sign. Only one with a point in it may have an exponent, and is read as
a double. -/
def readNumber (cs : List Char) : Option Value :=
  let (negative, body) := signed cs
  let digits := body.takeWhile Char.isDigit
  let whole := ofDigits digits
  if wholeLimit < whole then none
  else
    match body.dropWhile Char.isDigit with
    | [] => if digits.isEmpty then none else some (.int (if negative then -whole else whole))
    | '.' :: _ => (floatBody negative body).map .float
    | _ => none

/-- A text that reads as a number is one. -/
def ofNumber (v : Option Value) : Option (Except Fault DateTime) :=
  match v with
  | some (.int n) => some (ofInt n)
  | some (.float x) => some (ofFloat x)
  | _ => none

/-- A number out of range is no readable text. -/
def inText : Fault → Fault
  | .outOfRange => .unreadableText
  | fault => fault

def ofText (cs : List Char) : Except Fault DateTime :=
  match readText cs with
  | some fields => keep fields
  | none =>
    match ofNumber (readNumber cs) with
    | some instant => instant.mapError inText
    | none =>
      match readDay cs with
      | some fields => keep fields
      | none => .error .unreadableText

/-- The instant that a value stands for. -/
def ofValue : Value → Except Fault DateTime
  | .string s => if Text.isWhole s then ofText s.toList else .error .brokenText
  | .int n => if (Binary64.ofInt? n).isSome then ofInt n else .error .wrongKind
  | .float x => ofFloat x
  | .dateTime t => .ok t
  | _ => .error .wrongKind

end Extraction.Calendar.Timestamp
