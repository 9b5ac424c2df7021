import Extraction.Json.Reader
import Extraction.Run
import Extraction.Service.Encoding

/-!
Requests to process a document. The form holds the file and, if wanted, the output format, the name
of a stored schema or a schema in JSON. A field that is empty counts as left out, and of a field
that is sent more than once the last value counts.
-/

namespace Extraction.Service

/-- The fields of a form that is complete. -/
structure Submission where
  file : Upload
  format : OutputFormat
  schemaName : Option String
  schemaText : Option String
deriving Repr

namespace Submission

/-- What a form holds under a name. The last value counts, and an empty text counts as left out. -/
def field? (name : String) (entries : List (String × FormEntry)) : Option FormEntry :=
  ((entries.reverse.find? fun entry => entry.1 = name).map Prod.snd).filter (· ≠ .text "")

/-- The value in which a fault was found. -/
def found : Option FormEntry → Value
  | some (.text s) => .string s
  | _ => .null

/-- A field, read in its own way. -/
def read (entries : List (String × FormEntry)) (name : String)
    (reading : Option FormEntry → Except FieldFault.Kind α) : Except (List FieldFault) α :=
  let entry := field? name entries
  (reading entry).mapError fun kind =>
    [⟨kind, [.field "body", .field name], found entry⟩]

def readFile : Option FormEntry → Except FieldFault.Kind Upload
  | some (.file u) => .ok u
  | some (.text _) => .error .refused
  | none => .error .missing

def readFormat : Option FormEntry → Except FieldFault.Kind OutputFormat
  | none => .ok .json
  | some (.file _) => .error .notListed
  | some (.text name) =>
    match OutputFormat.ofName? name with
    | some format => .ok format
    | none => .error .notListed

def readText : Option FormEntry → Except FieldFault.Kind (Option String)
  | none => .ok none
  | some (.text s) => .ok (some s)
  | some (.file _) => .error .notText

/-- Reads a form. All faulty fields are reported. -/
def ofEntries (entries : List (String × FormEntry)) : Except (List FieldFault) Submission :=
  let file := read entries "file" readFile
  let format := read entries "format_to" readFormat
  let schemaName := read entries "schema_name" readText
  let schemaText := read entries "schema" readText
  match file, format, schemaName, schemaText with
  | .ok file, .ok format, .ok schemaName, .ok schemaText =>
    .ok ⟨file, format, schemaName, schemaText⟩
  | file, format, schemaName, schemaText =>
    .error (StoredSchema.faultsOf file ++ StoredSchema.faultsOf format ++
      StoredSchema.faultsOf schemaName ++ StoredSchema.faultsOf schemaText)

/-- What arrives of the form in a request; what is no form has no fields. -/
def entriesOf : Payload → Except FormFault (List (String × FormEntry))
  | .form parts => Form.entries parts
  | _ => .ok []

/-- Reads what a request carries. -/
def ofPayload (payload : Payload) : Except Response Submission :=
  match entriesOf payload with
  | .error fault => .error (.detail 400 fault.message)
  | .ok entries => (ofEntries entries).mapError .faults

/-- Checks the file: it has a name, is not empty and is not too large. -/
def checkFile (maxBytes : Int) (file : Upload) : Except Response Unit :=
  if file.fileName.isEmpty then .error (.detail 400 "Document file is required")
  else if file.content.isEmpty then .error (.detail 400 "Uploaded document is empty")
  else if maxBytes < file.content.length then
    .error (.detail 413
      ("Uploaded document exceeds " ++ String.ofList (Number.intChars maxBytes) ++ " bytes"))
  else .ok ()

/-- A value that stands for itself; null stands for none. -/
def present : Value → Option Value
  | .null => none
  | v => some v

/-- The schema in a field; none if the field is blank. -/
def inlineSchema (text : Option String) : Except Problem (Option Value) :=
  match text with
  | none => .ok none
  | some t =>
    if Text.isBlankText t then .ok none
    else
      match Json.read true t with
      | .ok v => .ok (present v)
      | .error .nesting => .error .nesting
      | .error _ =>
        .error (.failure (.badDefinition "The 'schema' field is not valid JSON."))

/-- A trimmed name; none if nothing is left of it. -/
def trimmedName (name : Option String) : Option String :=
  (name.map Text.trim).filter fun n => !n.isEmpty

/-- The order that a submission stands for. -/
def order (s : Submission) : Except Problem Order :=
  (inlineSchema s.schemaText).map fun schema =>
    ⟨some s.file.fileName, s.file.content, s.format, trimmedName s.schemaName, schema⟩

end Submission

end Extraction.Service
