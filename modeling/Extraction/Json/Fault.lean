/-!
Faults of JSON text. A fault in the grammar comes with the number of characters that remain at its
place, from which `Fault.position` computes the place itself.
-/

namespace Extraction.Json

inductive Fault where
  /-- The text breaks the grammar where `remaining` characters are left. -/
  | malformed (remaining : Nat)
  /-- An integer of so many digits is too long to be read. -/
  | longInteger (count : Nat)
  /-- A constant that the caller refuses. -/
  | constant
  /-- Containers are nested beyond the limit. -/
  | nesting
deriving DecidableEq, Repr

/-- The place of a fault in the grammar, counted from the start of the text. -/
def Fault.position (text : String) : Fault → Option Nat
  | .malformed remaining => some (text.length - remaining)
  | _ => none

def isSpace (c : Char) : Bool :=
  c == ' ' || c == '\t' || c == '\n' || c == '\r'

/-- What follows the JSON space at the start of a text. -/
def skipSpace (cs : List Char) : List Char :=
  cs.dropWhile isSpace

end Extraction.Json
