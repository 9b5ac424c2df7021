import Extraction.Calendar.DateTime
import Extraction.Number.Binary64

/-!
Instants given as a number of seconds since 1970-01-01T00:00:00Z. A fractional number is cut into
whole seconds and a fraction first; the fraction is then multiplied by a million, as a double, and
rounded to a whole number of microseconds, a half to the even one.
-/

namespace Extraction.Calendar

open Number

/-- The instant in UTC, if its year is in range. -/
def DateTime.ofEpoch? (seconds : Int) (microsecond : Nat) : Option DateTime :=
  let days := seconds / 86400 + Date.epoch
  let rest := (seconds % 86400).toNat
  if days < 0 then none
  else do
    let date ← Date.ofDayNumber? days.toNat
    let time ← Time.of? (rest / 3600) (rest / 60 % 60) (rest % 60) microsecond
    some ⟨date, time, some .utc⟩

/-- The number of microseconds in a fraction of a second that is given in units of `2^-1074`. -/
def microseconds (fraction : Nat) : Nat :=
  (Magnitude.round (fraction * 1000000) Magnitude.unitsPerOne).elim 0 fun m =>
    divRound m.units Magnitude.unitsPerOne

/-- The instant that lies whole seconds and microseconds before or after 1970. The microseconds of a
full second are carried. -/
def DateTime.ofParts? (negative : Bool) (whole : Int) (micro : Nat) : Option DateTime :=
  if micro = 1000000 then ofEpoch? (if negative then -(whole + 1) else whole + 1) 0
  else if !negative then ofEpoch? whole micro
  else if micro = 0 then ofEpoch? (-whole) 0
  else ofEpoch? (-whole - 1) (1000000 - micro)

/-- The instant that lies a number of seconds from 1970. -/
def DateTime.ofSeconds? : Binary64 → Option DateTime
  | .finite negative m =>
    ofParts? negative (m.units / Magnitude.unitsPerOne)
      (microseconds (m.units % Magnitude.unitsPerOne))
  | _ => none

/-- The instant that lies a number of milliseconds from 1970. Dividing by a thousand rounds to a
double once. -/
def DateTime.ofMilliseconds? (x : Binary64) : Option DateTime :=
  ofSeconds? (Binary64.divNat x 1000)

def DateTime.ofWholeMilliseconds? (n : Int) : Option DateTime :=
  ofSeconds? (Binary64.ofRatio (n < 0) n.natAbs 1000)

end Extraction.Calendar
