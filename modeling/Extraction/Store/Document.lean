import Extraction.Calendar.Timestamp
import Extraction.Problem
import Extraction.Value.Kept

/-!
Stored schemas: named definitions, each with an optional description and the time of its creation.
A stored schema has one form outside the store, in which it is kept in the file and served to
clients; read back, each field may also go by its second spelling. Both ways are pydantic's: which
values it takes for a field, how it reports faults, and what it makes of a definition.
-/

namespace Extraction

open Calendar

structure StoredSchema where
  name : String
  description : Option String
  definition : Fields
  createdAt : DateTime
deriving Repr

namespace StoredSchema

/-- The name of a field and its second spelling. -/
structure Key where
  main : String
  other : String
deriving DecidableEq, Repr

def nameKey : Key := ⟨"schemaName", "schema_name"⟩
def descriptionKey : Key := ⟨"description", "description"⟩
def definitionKey : Key := ⟨"jsonSchema", "json_schema"⟩
def createdAtKey : Key := ⟨"createdAt", "created_at"⟩

/-- What fields hold under a key, with the spelling that was used; the main spelling goes first. -/
def Key.find? (key : Key) (fields : Fields) : Option (String × Value) :=
  match Value.lookup? key.main fields with
  | some v => some (key.main, v)
  | none => (Value.lookup? key.other fields).map fun v => (key.other, v)

def descriptionValue (description : Option String) : Value :=
  match description with
  | some s => .string s
  | none => .null

/-- How many levels the values of a definition may have; pydantic refuses to turn deeper ones into
JSON values. -/
def levelLimit : Nat := 255

/-- Can the form outside the store be made? -/
def isShallow (d : StoredSchema) : Bool :=
  d.definition.all fun field => field.2.levels ≤ levelLimit

/-- The form outside the store. -/
def toValue (d : StoredSchema) : Value :=
  .object [
    (nameKey.main, .string d.name),
    (descriptionKey.main, descriptionValue d.description),
    (definitionKey.main, (Value.object d.definition).kept),
    (createdAtKey.main, .string (Timestamp.text d.createdAt))]

/-! ### Reading -/

/-- One fault in the field at a name. -/
def faultAt (name : String) (found : Value) (kind : FieldFault.Kind) : List FieldFault :=
  [⟨kind, [.field name], found⟩]

/-- A field that has to be there, read in its own way. -/
def required (key : Key) (read : Value → Except FieldFault.Kind α) (fields : Fields) :
    Except (List FieldFault) α :=
  match key.find? fields with
  | none => .error (faultAt key.main (.object fields) .missing)
  | some (name, v) => (read v).mapError (faultAt name v)

def readText : Value → Except FieldFault.Kind String
  | .string s => .ok s
  | _ => .error .notText

def readOptionalText : Value → Except FieldFault.Kind (Option String)
  | .string s => .ok (some s)
  | .null => .ok none
  | _ => .error .notText

def readMapping : Value → Except FieldFault.Kind Fields
  | .object fields => .ok fields
  | _ => .error .notMapping

/-- A description may be left out. -/
def readDescription (fields : Fields) : Except (List FieldFault) (Option String) :=
  match descriptionKey.find? fields with
  | none => .ok none
  | some (name, v) => (readOptionalText v).mapError (faultAt name v)

/-- How the faults of a timestamp are reported. -/
def timestampFault : Timestamp.Fault → FieldFault.Kind
  | .wrongKind => .notTimestamp
  | .outOfRange | .yearZero => .unreadableTimestamp
  | .unreadableText => .unreadableDate
  | .brokenText => .notUnicode

def readTimestamp (v : Value) : Except FieldFault.Kind DateTime :=
  (Timestamp.ofValue v).mapError timestampFault

/-- The faults of a reading, if it failed. -/
def faultsOf : Except (List FieldFault) α → List FieldFault
  | .ok _ => []
  | .error faults => faults

/-- Reads a stored schema. All faulty fields are reported, in the order of the fields. -/
def ofValue : Value → Except (List FieldFault) StoredSchema
  | .object fields =>
    let name := required nameKey readText fields
    let description := readDescription fields
    let definition := required definitionKey readMapping fields
    let createdAt := required createdAtKey readTimestamp fields
    match name, description, definition, createdAt with
    | .ok name, .ok description, .ok definition, .ok createdAt =>
      .ok ⟨name, description, definition, createdAt⟩
    | name, description, definition, createdAt =>
      .error
        (faultsOf name ++ faultsOf description ++ faultsOf definition ++ faultsOf createdAt)
  | v => .error [⟨.notRecord, [], v⟩]

end StoredSchema

end Extraction
