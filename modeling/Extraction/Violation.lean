import Extraction.Location

/-!
Violations of a schema, each noted at its location in the value, and the reasons for which a check
cannot be carried out at all.
-/

namespace Extraction

inductive Violation where
  | expected (label received : String)
  | notListed (label received : String)
  | invalidDate
  | unrecognizedKey (name : String)
deriving DecidableEq, Repr

def Violation.message : Violation → String
  | .expected label received => s!"Expected {label}, received {received}"
  | .notListed label received => s!"Invalid enum value. Expected {label}, received '{received}'"
  | .invalidDate => "Invalid date"
  | .unrecognizedKey name => s!"Unrecognized key '{name}'"

/-- A violation at its location. -/
structure Note where
  location : Location
  violation : Violation
deriving DecidableEq, Repr

/-- The note as seen from the value of which `step` leads to the part. -/
def Note.under (step : Step) (n : Note) : Note :=
  ⟨step :: n.location, n.violation⟩

/-- Why a check cannot be carried out. -/
inductive Breakdown where
  | foreignNode (kind : String)
  | unknownType (name : String)
  /-- An expected type without a name would have to be named. -/
  | unnamedType
  /-- A value would have to be shown that holds an integer too long to be written. -/
  | longInteger
deriving DecidableEq, Repr

def Breakdown.message : Breakdown → String
  | .foreignNode kind => s!"Unknown schema node: {kind}"
  | .unknownType name => s!"Unsupported scalar type: {name}"
  | .unnamedType => "'str' object has no attribute 'value'"
  | .longInteger => Number.unwritableText

end Extraction
