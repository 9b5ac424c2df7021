import Extraction.Value
import Extraction.Calendar.IsoReader
import Extraction.Calendar.Epoch
import Extraction.Text.Blank

/-!
Reading a value as a date. Dates stay as they are, text is read as ISO 8601 and numbers as
milliseconds since 1970.
-/

namespace Extraction

open Calendar

/-- What a value can be read as. -/
inductive DateReading where
  | date (d : Date)
  | dateTime (t : DateTime)
deriving DecidableEq, Repr

def DateReading.toValue : DateReading → Value
  | .date d => .date d
  | .dateTime t => .dateTime t

/-- A closing `Z` of either case is written out as an offset. -/
def spellOutZulu (cs : List Char) : List Char :=
  match cs.getLast? with
  | some c => if c == 'Z' || c == 'z' then cs.dropLast ++ "+00:00".toList else cs
  | none => cs

/-- A text that is a date alone is a date; any other is tried as a date with a time. -/
def readDateText? (s : String) : Option DateReading :=
  let cs := Text.trimChars s.toList
  match Iso.dateText? cs with
  | some d => some (.date d)
  | none => (Iso.dateTimeText? (spellOutZulu cs)).map .dateTime

def Value.asDate? : Value → Option DateReading
  | .date d => some (.date d)
  | .dateTime t => some (.dateTime t)
  | .int n => (DateTime.ofWholeMilliseconds? n).map .dateTime
  | .float x => (DateTime.ofMilliseconds? x).map .dateTime
  | .string s => readDateText? s
  | _ => none

end Extraction
