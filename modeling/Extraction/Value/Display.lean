import Extraction.Value
import Extraction.Number.FloatText
import Extraction.Text.Quoted

/-!
Values as messages show them. A text stands for itself and a date for its ISO form; inside a
container both are written as literals. No text exists for an integer that is too long to be
written.
-/

namespace Extraction

open Number Calendar Text

/-- Arguments separated by a comma and a space. -/
def commaSeparated (parts : List String) : String :=
  String.intercalate ", " parts

def Date.literal (d : Date) : String :=
  "datetime.date(" ++ commaSeparated [natText d.year, natText d.month, natText d.day] ++ ")"

/-- An offset as a span of days, seconds and microseconds, of which only the days are negative;
parts that are zero are left out. -/
def Offset.spanLiteral (o : Offset) : String :=
  let seconds := o.time.hour * 3600 + o.time.minute * 60 + o.time.second
  let micro := o.time.microsecond
  let part (name : String) (n : Nat) : List String := if n = 0 then [] else [name ++ natText n]
  let parts :=
    if !o.negative then part "seconds=" seconds ++ part "microseconds=" micro
    else if micro = 0 then "days=-1" :: part "seconds=" (86400 - seconds)
    else "days=-1" :: part "seconds=" (86399 - seconds) ++ part "microseconds=" (1000000 - micro)
  "datetime.timedelta(" ++ commaSeparated parts ++ ")"

def DateTime.literal (t : DateTime) : String :=
  let seconds :=
    if t.time.microsecond ≠ 0 then [natText t.time.second, natText t.time.microsecond]
    else if t.time.second ≠ 0 then [natText t.time.second]
    else []
  let zone :=
    match t.offset with
    | none => []
    | some o =>
      if o = .utc then ["tzinfo=datetime.timezone.utc"]
      else ["tzinfo=datetime.timezone(" ++ Offset.spanLiteral o ++ ")"]
  "datetime.datetime(" ++
    commaSeparated ([natText t.date.year, natText t.date.month, natText t.date.day,
      natText t.time.hour, natText t.time.minute] ++ seconds ++ zone) ++ ")"

namespace Value

mutual

/-- A value as a literal. -/
def literal? : Value → Option String
  | .null => some "None"
  | .bool b => some (if b then "True" else "False")
  | .int n => intText? n
  | .float x => some (x.text plainStyle)
  | .string s => some (quoted s)
  | .array items => (literalItems? items).map fun parts => "[" ++ commaSeparated parts ++ "]"
  | .object fields =>
    (literalFields? fields).map fun parts => "\x7b" ++ commaSeparated parts ++ "\x7d"
  | .date d => some (Date.literal d)
  | .dateTime t => some (DateTime.literal t)

def literalItems? : List Value → Option (List String)
  | [] => some []
  | v :: rest => do
    let first ← literal? v
    let others ← literalItems? rest
    some (first :: others)

def literalFields? : List (String × Value) → Option (List String)
  | [] => some []
  | (name, v) :: rest => do
    let first ← literal? v
    let others ← literalFields? rest
    some ((quoted name ++ ": " ++ first) :: others)

end

/-- A value as text. -/
def display? : Value → Option String
  | .string s => some s
  | .date d => some d.isoText
  | .dateTime t => some t.spacedText
  | v => literal? v

end Value

end Extraction
