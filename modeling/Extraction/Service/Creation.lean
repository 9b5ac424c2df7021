import Extraction.Json.Encoding
import Extraction.Json.Reader
import Extraction.Service.Encoding
import Extraction.Store.Document
import Extraction.Text.Blank

/-!
Requests to store a schema. The body is a JSON object with the name, the definition and possibly a
description; a name has at least three characters, blanks at its ends not counted.
-/

namespace Extraction.Service

/-- A schema that a client wants to have stored. -/
structure Creation where
  name : String
  description : Option String
  definition : Fields
deriving Repr

namespace Creation

def leastNameLength : Nat := 3

def readName : Value → Except FieldFault.Kind String
  | .string s =>
    if !Text.isWhole s then .error .notUnicode
    else if s.length < leastNameLength then .error .tooShort
    else if (Text.trim s).length < leastNameLength then .error .refused
    else .ok (Text.trim s)
  | _ => .error .notText

def readDefinition : Value → Except FieldFault.Kind Fields
  | .object [] => .error .refused
  | .object fields => .ok fields
  | _ => .error .notMapping

/-- Reads a body. All faulty fields are reported, in the order of the fields. -/
def ofValue : Value → Except (List FieldFault) Creation
  | .object fields =>
    let name := StoredSchema.required StoredSchema.nameKey readName fields
    let description := StoredSchema.readDescription fields
    let definition := StoredSchema.required StoredSchema.definitionKey readDefinition fields
    match name, description, definition with
    | .ok name, .ok description, .ok definition => .ok ⟨name, description, definition⟩
    | _, _, _ =>
      .error (StoredSchema.faultsOf name ++ StoredSchema.faultsOf description ++
        StoredSchema.faultsOf definition)
  | v => .error [⟨.notAttributes, [], v⟩]

def inBody (fs : List FieldFault) : List FieldFault :=
  fs.map (FieldFault.under (.field "body"))

def missingBody : Response :=
  .faults (inBody [⟨.missing, [], .null⟩])

/-- The response to a body without a JSON text in it. -/
def unreadable : Response :=
  .detail 400 "There was an error parsing the body"

/-- The response to a fault in the text of a body. -/
def unreadableAt (text : String) (fault : Json.Fault) : Response :=
  match fault.position text with
  | some position => .faults (inBody [⟨.invalidJson, [.index position], .object []⟩])
  | none => unreadable

/-- Reads the text of a body. -/
def ofText (text : String) : Except Response Creation :=
  match Json.read true text with
  | .error fault => .error (unreadableAt text fault)
  | .ok v => (ofValue v).mapError fun fs => .faults (inBody fs)

/-- Reads what a request carries. -/
def ofPayload : Payload → Except Response Creation
  | .nothing => .error missingBody
  | .form _ => .error (.faults (inBody [⟨.notAttributes, [], .null⟩]))
  | .json [] => .error missingBody
  | .json content =>
    match Json.textOf? content with
    | some text => ofText text
    | none => .error unreadable

end Creation

end Extraction.Service
