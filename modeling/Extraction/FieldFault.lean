import Extraction.Location
import Extraction.Value

/-!
Faults in the fields of a record that comes from outside: a request body, a submitted form or a
stored document.
-/

namespace Extraction

inductive FieldFault.Kind where
  | missing
  | notText
  | tooShort
  | notUnicode
  | notMapping
  | notRecord
  | notAttributes
  | notTimestamp
  | unreadableTimestamp
  | unreadableDate
  | notListed
  | refused
  | invalidJson
deriving DecidableEq, Repr

/-- The name of a kind of fault in an error report. -/
def FieldFault.Kind.name : FieldFault.Kind → String
  | missing => "missing"
  | notText => "string_type"
  | tooShort => "string_too_short"
  | notUnicode => "string_unicode"
  | notMapping => "dict_type"
  | notRecord => "model_type"
  | notAttributes => "model_attributes_type"
  | notTimestamp => "datetime_type"
  | unreadableTimestamp => "datetime_parsing"
  | unreadableDate => "datetime_from_date_parsing"
  | notListed => "enum"
  | refused => "value_error"
  | invalidJson => "json_invalid"

/-- A fault, where in the record it lies, and what was found there. Of a missing field, what was
found is the record without it. -/
structure FieldFault where
  kind : FieldFault.Kind
  location : Location
  found : Value
deriving Repr

/-- The fault as seen from a record of which `step` leads to the part. -/
def FieldFault.under (step : Step) (f : FieldFault) : FieldFault :=
  { f with location := step :: f.location }

end Extraction
