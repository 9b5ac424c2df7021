import Extraction.Calendar.DateTime
import Extraction.Number.Power
import Extraction.Text.Half

/-!
Reading ISO 8601 text. Dates come in the extended form `YYYY-MM-DD`, the basic form `YYYYMMDD` and
the week forms `YYYY-Www[-D]` and `YYYYWww[D]`. A time follows a date after one character of any
kind, and an offset follows a time.
-/

namespace Extraction.Calendar.Iso

/-- The number of octets that a text takes in UTF-8; lengths of dates count these. -/
def octetCount (cs : List Char) : Nat :=
  cs.foldl (fun n c => n + c.utf8Size) 0

/-- Reads exactly `count` digits on top of the value `acc`. -/
def readDigits (acc : Nat) : (count : Nat) → List Char → Option (Nat × List Char)
  | 0, cs => some (acc, cs)
  | _ + 1, [] => none
  | count + 1, c :: cs =>
    if c.isDigit then readDigits (10 * acc + (c.toNat - 48)) count cs else none

/-- A hyphen, required in the extended forms and absent from the basic ones. -/
def hyphen (extended : Bool) (cs : List Char) : Option (List Char) :=
  if extended then
    match cs with
    | '-' :: rest => some rest
    | _ => none
  else some cs

/-- A date at the start of a text. `length` says how long the date is: it decides whether a week
is followed by a weekday. What comes after the date is not looked at. -/
def readDate (length : Nat) (cs : List Char) : Option Date := do
  let (year, rest) ← readDigits 0 4 cs
  let extended := rest.head? == some '-'
  let rest ← hyphen extended rest
  match rest with
  | 'W' :: rest =>
    let (week, rest) ← readDigits 0 2 rest
    if (if extended then 8 else 7) < length then
      let rest ← hyphen extended rest
      let (day, _) ← readDigits 0 1 rest
      Date.ofWeek? year week day
    else Date.ofWeek? year week 1
  | rest =>
    let (month, rest) ← readDigits 0 2 rest
    let rest ← hyphen extended rest
    let (day, _) ← readDigits 0 2 rest
    Date.ofYmd? year month day

/-- A text that is a date by its length. -/
def dateText? (cs : List Char) : Option Date :=
  let n := octetCount cs
  if cs.any Text.isHalf then none
  else if n = 7 || n = 8 || n = 10 then readDate n cs
  else none

/-- Where the date ends in a text with a time; none if no place fits.

A weekday and a separator can be told apart only by looking ahead: `YYYY-Www-` followed by a
character and a digit is taken as a week with a hyphen for separator, and after `YYYYWww` an odd
number of further digits means that the first of them is the weekday. -/
def dateLength (cs : List Char) : Option Nat :=
  let n := octetCount cs
  if n = 7 then some 7
  else if cs[4]? == some '-' then
    if cs[5]? != some 'W' then some 10
    else if cs[8]? != some '-' then some 8
    else if n = 9 then none
    else if 10 < n && (cs[10]?.any Char.isDigit) then some 8
    else some 10
  else if cs[4]? == some 'W' then
    let stop := 7 + ((cs.drop 7).takeWhile Char.isDigit).length
    if stop < 9 then some stop else if stop % 2 = 0 then some 7 else some 8
  else some 8

/-- The fields of a clock, and whether text is left over behind them. -/
structure Clock where
  hour : Nat
  minute : Nat
  second : Nat
  microsecond : Nat
  leftover : Bool
deriving DecidableEq, Repr

/-- Up to six digits of a fraction, as microseconds. Digits beyond the sixth are skipped. -/
def readFraction (cs : List Char) : Option (Nat × Bool) := do
  let count := min 6 cs.length
  let (value, rest) ← readDigits 0 count cs
  let rest := rest.dropWhile Char.isDigit
  some (value * Number.tenPow (6 - count), !(rest.isEmpty || rest.head? == some '\x00'))

/-- Two-digit fields with colons between them or without, then a fraction after a point or comma;
`fields` more are allowed after the next one. `colons` is known from the first field on. Without
colons, what follows the last field is its fraction, and with them a colon there serves as point. -/
def readFields : (fields : Nat) → (colons : Option Bool) → List Char →
    Option (List Nat × Nat × Bool)
  | fields, colons, cs => do
    let (value, rest) ← readDigits 0 2 cs
    match rest with
    | [] => some ([value], 0, false)
    | c :: rest =>
      let colons := colons.getD (c == ':')
      if rest.isEmpty && c.toNat < 128 then some ([value], 0, c != '\x00')
      else if (c == '.' || c == ',') && !(colons && c == ':') then
        let (micro, leftover) ← readFraction rest
        some ([value], micro, leftover)
      else if colons && c != ':' then none
      else
        let next := if colons then rest else c :: rest
        match fields with
        | 0 =>
          let (micro, leftover) ← readFraction next
          some ([value], micro, leftover)
        | fields + 1 =>
          let (values, micro, leftover) ← readFields fields (some colons) next
          some (value :: values, micro, leftover)

def readClock (cs : List Char) : Option Clock := do
  let (values, micro, leftover) ← readFields 2 none cs
  some ⟨values[0]?.getD 0, values[1]?.getD 0, values[2]?.getD 0, micro, leftover⟩

def startsOffset (c : Char) : Bool :=
  c == '+' || c == '-' || c == 'Z'

/-- An offset, sign included. Its fields may exceed the clock's; only their sum is bounded, and a
sum of whole seconds that is zero means UTC. -/
def readOffset : List Char → Option Offset
  | 'Z' :: rest => if rest.isEmpty || rest.head? == some '\x00' then some .utc else none
  | sign :: rest => do
    let clock ← readClock rest
    if clock.leftover then none
    else
      let seconds := clock.hour * 3600 + clock.minute * 60 + clock.second
      if seconds = 0 then some .utc
      else
        let time ← Time.of? (seconds / 3600) (seconds / 60 % 60) (seconds % 60) clock.microsecond
        some (.of (sign == '-') time)
  | [] => none

/-- A time, with an offset if a `+`, `-` or `Z` comes after its start. What stands between the
fields that were read and the offset is ignored. -/
def readTime (cs : List Char) : Option (Time × Option Offset) := do
  let body := cs.takeWhile fun c => !startsOffset c
  let rest := cs.dropWhile fun c => !startsOffset c
  let clock ← readClock body
  let time := Time.of? clock.hour clock.minute clock.second clock.microsecond
  if rest.isEmpty then
    if clock.leftover then none else time.map fun t => (t, none)
  else
    let offset ← readOffset rest
    time.map fun t => (t, some offset)

/-- The places where the character between a date and a time may stand. -/
def separatorPlaces : List Nat := [7, 8, 10]

/-- Half of a surrogate pair may stand between date and time, and nowhere else; there it counts as
an ordinary character. -/
def withoutHalf (cs : List Char) : List Char :=
  match separatorPlaces.find? fun place => cs[place]?.any Text.isHalf with
  | some place => cs.set place 'T'
  | none => cs

/-- A date and a time with one character between them. -/
def dateTimeText? (text : List Char) : Option DateTime :=
  let cs := withoutHalf text
  if cs.any Text.isHalf then none
  else do
    let length ← dateLength cs
    let date ← readDate length cs
    let (time, offset) ← readTime (cs.drop (length + 1))
    some ⟨date, time, offset⟩

end Extraction.Calendar.Iso
