import Extraction.Json.Numeral
import Extraction.Json.Text

/-!
Writing JSON text, either compactly or with one entry a line and two more spaces a level. Dates are
written as strings, with a space before the time. An integer that is too long to be written makes
the whole text fail.
-/

namespace Extraction.Json

open Number

/-- How the entries of a container are laid out: compactly, or on lines of their own with `indent`
spaces a level. -/
structure Layout where
  afterColon : List Char
  lines : Bool
  indent : Nat

def compact : Layout := ⟨[], false, 0⟩

def indented : Layout := ⟨[' '], true, 2⟩

/-- What stands before an entry, or before the closing bracket, at a level. -/
def Layout.newline (layout : Layout) (level : Nat) : List Char :=
  if layout.lines then '\n' :: List.replicate (layout.indent * level) ' ' else []

mutual

def valueChars (layout : Layout) (level : Nat) : Value → Option (List Char)
  | .null => some "null".toList
  | .bool b => some (if b then "true".toList else "false".toList)
  | .int n => (intText? n).map String.toList
  | .float x => some (x.text floatStyle).toList
  | .string s => some (stringChars s)
  | .date d => some (stringChars d.isoText)
  | .dateTime t => some (stringChars t.spacedText)
  | .array [] => some ['[', ']']
  | .array (v :: rest) => do
    let first ← valueChars layout (level + 1) v
    let others ← itemChars layout (level + 1) rest
    some ('[' :: layout.newline (level + 1) ++ first ++ others ++ layout.newline level ++ [']'])
  | .object [] => some ['\x7b', '\x7d']
  | .object ((name, v) :: rest) => do
    let first ← valueChars layout (level + 1) v
    let others ← fieldChars layout (level + 1) rest
    some ('\x7b' :: layout.newline (level + 1) ++ stringChars name ++ ':' :: layout.afterColon ++
      first ++ others ++ layout.newline level ++ ['\x7d'])

/-- The further elements of an array, each with the comma before it. -/
def itemChars (layout : Layout) (level : Nat) : List Value → Option (List Char)
  | [] => some []
  | v :: rest => do
    let first ← valueChars layout level v
    let others ← itemChars layout level rest
    some (',' :: layout.newline level ++ first ++ others)

/-- The further fields of an object, each with the comma before it. -/
def fieldChars (layout : Layout) (level : Nat) : List (String × Value) → Option (List Char)
  | [] => some []
  | (name, v) :: rest => do
    let first ← valueChars layout level v
    let others ← fieldChars layout level rest
    some (',' :: layout.newline level ++ stringChars name ++ ':' :: layout.afterColon ++
      first ++ others)

end

/-- The JSON text of a value; none if an integer in it is too long to be written. -/
def print? (layout : Layout) (v : Value) : Option String :=
  (valueChars layout 0 v).map String.ofList

end Extraction.Json
