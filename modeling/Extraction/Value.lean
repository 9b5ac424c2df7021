import Extraction.Calendar.DateTime
import Extraction.Number.Binary64

/-!
Values: what a JSON text holds, and the dates that validation puts in its place. The fields of an
object keep their order.
-/

namespace Extraction

open Number Calendar

inductive Value where
  | null
  | bool (b : Bool)
  | int (n : Int)
  | float (x : Binary64)
  | string (s : String)
  | array (items : List Value)
  | object (fields : List (String × Value))
  | date (d : Date)
  | dateTime (t : DateTime)
deriving Repr, Inhabited

/-- The fields of an object, in order. -/
abbrev Fields := List (String × Value)

namespace Value

/-- What an object holds under a name. -/
def lookup? (name : String) : List (String × Value) → Option Value
  | [] => none
  | (key, v) :: rest => if key = name then some v else lookup? name rest

/-- A missing field reads as null. -/
def fieldOrNull (name : String) (fields : Fields) : Value :=
  (lookup? name fields).getD .null

/-- Writes a field: in its place if the name is there, else at the end. -/
def setField (name : String) (v : Value) : List (String × Value) → List (String × Value)
  | [] => [(name, v)]
  | (key, w) :: rest => if key = name then (key, v) :: rest else (key, w) :: setField name v rest

/-- The fields that remain when a name occurs more than once: its first place and last value. -/
def fieldsOfPairs (pairs : Fields) : Fields :=
  pairs.foldl (fun fields pair => setField pair.1 pair.2 fields) []

/-- The kind of a value as messages call it. -/
def kind : Value → String
  | .null => "null"
  | .bool _ => "boolean"
  | .int _ => "number"
  | .float .nan => "nan"
  | .float (.infinite _) => "infinity"
  | .float (.finite _ _) => "number"
  | .string _ => "string"
  | .array _ => "array"
  | .object _ => "object"
  | .date _ => "date"
  | .dateTime _ => "datetime"

mutual

/-- The value as it is sent: each date becomes its ISO text. -/
def wire : Value → Value
  | .array items => .array (wireItems items)
  | .object fields => .object (wireFields fields)
  | .date d => .string d.isoText
  | .dateTime t => .string t.isoText
  | v => v

def wireItems : List Value → List Value
  | [] => []
  | v :: rest => wire v :: wireItems rest

def wireFields : List (String × Value) → List (String × Value)
  | [] => []
  | (name, v) :: rest => (name, wire v) :: wireFields rest

end

mutual

/-- Does every double in the value, at any depth, have a finite value? -/
def allFinite : Value → Bool
  | .float x => x.isFinite
  | .array items => allFiniteItems items
  | .object fields => allFiniteFields fields
  | _ => true

def allFiniteItems : List Value → Bool
  | [] => true
  | v :: rest => allFinite v && allFiniteItems rest

def allFiniteFields : List (String × Value) → Bool
  | [] => true
  | (_, v) :: rest => allFinite v && allFiniteFields rest

end

mutual

/-- How deep lists and objects are nested in a value. -/
def nesting : Value → Nat
  | .array items => nestingItems items + 1
  | .object fields => nestingFields fields + 1
  | _ => 0

def nestingItems : List Value → Nat
  | [] => 0
  | v :: rest => max (nesting v) (nestingItems rest)

def nestingFields : List (String × Value) → Nat
  | [] => 0
  | (_, v) :: rest => max (nesting v) (nestingFields rest)

end

end Value

end Extraction
