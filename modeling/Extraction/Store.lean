import Extraction.Store.Place
import Extraction.Text.Blank

/-!
The store of schemas: documents with different names, in the order of their creation. If the store
has a place on disk, every change is written there before it takes effect, so a change that cannot
be written is not made.
-/

namespace Extraction

open Calendar (DateTime)

/-- A clock: the time at its first, second, … reading, and how often it was read. -/
structure Clock where
  time : Nat → DateTime
  readings : Nat

namespace Clock

def now (c : Clock) : DateTime :=
  c.time c.readings

def advance (c : Clock) : Clock :=
  { c with readings := c.readings + 1 }

end Clock

structure Store where
  documents : List StoredSchema
  /-- Without a place the documents are kept in memory alone. -/
  place : Option Place
  clock : Clock

namespace Store

/-- An empty store in memory. -/
def empty (clock : Clock) : Store :=
  ⟨[], none, clock⟩

def named? (name : String) (documents : List StoredSchema) : Option StoredSchema :=
  documents.find? fun d => d.name = name

def has (name : String) (documents : List StoredSchema) : Bool :=
  documents.any fun d => d.name = name

/-- The document of a name, blanks around the name aside. -/
def find? (s : Store) (name : String) : Option StoredSchema :=
  named? (Text.trim name) s.documents

/-- Loads the documents from the place anew. If that fails, the store stays as it is. -/
def reopen (s : Store) : Except Problem Nat × Store :=
  match s.place with
  | none => (.ok 0, { s with documents := [] })
  | some p =>
    match p.read with
    | .ok documents => (.ok documents.length, { s with documents })
    | .error problem => (.error problem, s)

/-- Makes the documents those of the store, once they are written. -/
def commit (s : Store) (documents : List StoredSchema) : Except Problem Unit × Store :=
  match s.place with
  | none => (.ok (), { s with documents })
  | some p =>
    match p.write documents with
    | (.ok (), p) => (.ok (), { s with documents, place := some p })
    | (.error problem, p) => (.error problem, { s with place := some p })

/-- A new document, from fields that pydantic has still to check. It reports a fault in the
definition under the name that the store uses for it. -/
def newDocument (name : String) (description definition : Value) (createdAt : DateTime) :
    Except Problem StoredSchema :=
  let description' := (StoredSchema.readOptionalText description).mapError
    (StoredSchema.faultAt StoredSchema.descriptionKey.main description)
  let definition' := (StoredSchema.readMapping definition).mapError
    (StoredSchema.faultAt StoredSchema.definitionKey.other definition)
  match description', definition' with
  | .ok description, .ok definition => .ok ⟨name, description, definition, createdAt⟩
  | description, definition =>
    .error (.badFields (StoredSchema.faultsOf description ++ StoredSchema.faultsOf definition))

/-- Stores a new schema under a trimmed name that is not in use. -/
def create (s : Store) (name : String) (description definition : Value) :
    Except Problem StoredSchema × Store :=
  let name := Text.trim name
  if has name s.documents then (.error (.failure (.schemaExists name)), s)
  else
    let ticked := { s with clock := s.clock.advance }
    match newDocument name description definition s.clock.now with
    | .error problem => (.error problem, ticked)
    | .ok d =>
      match ticked.commit (s.documents ++ [d]) with
      | (.ok (), s) => (.ok d, s)
      | (.error problem, s) => (.error problem, s)

/-- Removes the schema of a name, blanks around the name aside. -/
def delete (s : Store) (name : String) : Except Problem Unit × Store :=
  let name := Text.trim name
  if has name s.documents then s.commit (s.documents.filter fun d => d.name ≠ name)
  else (.error (.failure (.unknownSchema name)), s)

end Store

end Extraction
