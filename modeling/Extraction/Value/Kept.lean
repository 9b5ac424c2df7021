import Extraction.Text.Half
import Extraction.Value

/-!
What becomes of a value that is kept. This is what pydantic makes of it where it turns a record into
JSON values: null stands for every double that JSON has no number for, and replacement characters
for the halves of surrogate pairs in names, while those in other texts stay. Values with too many
levels are refused.
-/

namespace Extraction.Value

mutual

/-- The form in which a value is kept. Of names that become equal the last value remains. -/
def kept : Value → Value
  | .float x => if x.isFinite then .float x else .null
  | .array items => .array (keptItems items)
  | .object fields => .object (fieldsOfPairs (keptFields fields))
  | v => v

def keptItems : List Value → List Value
  | [] => []
  | v :: rest => kept v :: keptItems rest

def keptFields : List (String × Value) → List (String × Value)
  | [] => []
  | (name, v) :: rest => (Text.replaceHalves name, kept v) :: keptFields rest

end

mutual

/-- How many values at most lie inside each other, this one included. -/
def levels : Value → Nat
  | .array items => levelsItems items + 1
  | .object fields => levelsFields fields + 1
  | _ => 1

def levelsItems : List Value → Nat
  | [] => 0
  | v :: rest => max (levels v) (levelsItems rest)

def levelsFields : List (String × Value) → Nat
  | [] => 0
  | (_, v) :: rest => max (levels v) (levelsFields rest)

end

mutual

/-- Are all texts in the value, the names among them, free of halves? -/
def isWhole : Value → Bool
  | .string s => Text.isWhole s
  | .array items => isWholeItems items
  | .object fields => isWholeFields fields
  | _ => true

def isWholeItems : List Value → Bool
  | [] => true
  | v :: rest => isWhole v && isWholeItems rest

def isWholeFields : List (String × Value) → Bool
  | [] => true
  | (name, v) :: rest => Text.isWhole name && isWhole v && isWholeFields rest

end

end Extraction.Value
