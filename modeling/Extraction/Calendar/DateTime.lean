import Extraction.Calendar.Date

/-!
Times of day, offsets from UTC, and dates with a time. A date-time without an offset is naive.
-/

namespace Extraction.Calendar

def IsTime (hour minute second microsecond : Nat) : Prop :=
  hour ≤ 23 ∧ minute ≤ 59 ∧ second ≤ 59 ∧ microsecond ≤ 999999

instance (hour minute second microsecond : Nat) :
    Decidable (IsTime hour minute second microsecond) := by
  unfold IsTime; infer_instance

structure Time where
  hour : Nat
  minute : Nat
  second : Nat
  microsecond : Nat
  valid : IsTime hour minute second microsecond
deriving DecidableEq, Repr

namespace Time

def midnight : Time := ⟨0, 0, 0, 0, by decide⟩

def of? (hour minute second microsecond : Nat) : Option Time :=
  if h : IsTime hour minute second microsecond then
    some ⟨hour, minute, second, microsecond, h⟩
  else none

/-- A fraction of a second, `.ffffff`, left out if it is zero. -/
def fractionChars (microsecond : Nat) : List Char :=
  if microsecond = 0 then [] else '.' :: Number.padded 6 microsecond

/-- `HH:MM:SS[.ffffff]`. -/
def isoChars (t : Time) : List Char :=
  Number.padded 2 t.hour ++ ':' :: Number.padded 2 t.minute ++ ':' :: Number.padded 2 t.second ++
    fractionChars t.microsecond

end Time

/-- A difference from UTC of less than a day. -/
structure Offset where
  negative : Bool
  time : Time
  /-- There is one zero. -/
  zero_positive : negative = true → time ≠ .midnight
deriving DecidableEq, Repr

namespace Offset

def utc : Offset := ⟨false, .midnight, by decide⟩

def of (negative : Bool) (t : Time) : Offset :=
  if h : t = .midnight then ⟨false, t, by simp⟩ else ⟨negative, t, fun _ => h⟩

/-- `±HH:MM[:SS[.ffffff]]`. -/
def isoChars (o : Offset) : List Char :=
  let t := o.time
  (if o.negative then '-' else '+') :: Number.padded 2 t.hour ++ ':' :: Number.padded 2 t.minute ++
    (if t.second = 0 && t.microsecond = 0 then []
    else ':' :: Number.padded 2 t.second ++ Time.fractionChars t.microsecond)

end Offset

structure DateTime where
  date : Date
  time : Time
  offset : Option Offset
deriving DecidableEq, Repr

namespace DateTime

def offsetChars (t : DateTime) : List Char :=
  match t.offset with
  | some o => o.isoChars
  | none => []

/-- The ISO form with a chosen character between the date and the time. -/
def charsWith (separator : Char) (t : DateTime) : List Char :=
  t.date.isoChars ++ separator :: t.time.isoChars ++ t.offsetChars

def isoText (t : DateTime) : String :=
  String.ofList (t.charsWith 'T')

/-- The ISO form with a space for the `T`. -/
def spacedText (t : DateTime) : String :=
  String.ofList (t.charsWith ' ')

end DateTime

end Extraction.Calendar
