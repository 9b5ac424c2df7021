import Extraction.Failure
import Extraction.FieldFault

/-!
Problems: everything that can stop an operation. The failures of the service are among them; the
others have no report of their own and are answered with a bare internal error.
-/

namespace Extraction

inductive Problem where
  | failure (f : Failure)
  /-- A value that an operation cannot take, with the reason. -/
  | badValue (message : String)
  | badFields (faults : List FieldFault)
  | invalidJson
  /-- A text with half of a surrogate pair was to be written. -/
  | brokenText
  /-- Data nested more deeply than can be read, or than can be written inline. -/
  | nesting
  /-- A folder stands where a file is expected. -/
  | folder
  /-- A single value stands where several are expected. -/
  | single
  /-- A problem of a part outside the service, with its kind and text. -/
  | foreign (kind text : String)
deriving Repr

namespace Problem

/-- An integer is too long to be written. -/
def longInteger : Problem :=
  .badValue Number.unwritableText

/-- A failure stays as it is; any other problem is reported as the failure `f`. -/
def asFailure (f : Failure) : Problem → Failure
  | failure g => g
  | _ => f

end Problem

end Extraction
