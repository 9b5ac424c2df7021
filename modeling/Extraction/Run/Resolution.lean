import Extraction.Run.Order
import Extraction.Schema.Compile
import Extraction.Store.Document

/-!
Which schema a run uses: one that is stored under a name, or one that comes with the order. The
latter may be wrapped as a stored schema is when clients send it, and then exactly one wrapper is
taken off.
-/

namespace Extraction.Run

def nameKeys : List String := ["schemaName", "schema_name"]

def definitionKeys : List String := ["jsonSchema", "json_schema"]

/-- The keys of a stored schema as clients send it. -/
def documentKeys : List String := nameKeys ++ "description" :: definitionKeys

/-- Does an inline schema look like a stored schema, with a definition inside? -/
def isWrapper (fields : Fields) : Bool :=
  fields.all (fun field => field.1 ∈ documentKeys) &&
    fields.any (fun field => field.1 ∈ nameKeys) &&
    fields.any (fun field => field.1 ∈ definitionKeys)

/-- The definition inside a wrapper. -/
def wrapped? (fields : Fields) : Option Fields :=
  let inner :=
    (Value.lookup? "jsonSchema" fields).getD (Value.fieldOrNull "json_schema" fields)
  match inner with
  | .object definition => some definition
  | _ => none

/-- An inline schema without its wrapper, if it has one. -/
def unwrap (fields : Fields) : Fields :=
  if isWrapper fields then (wrapped? fields).getD fields else fields

/-- The definition that an inline schema stands for. -/
def inlineDefinition : Value → Except Failure Fields
  | .object fields =>
    let definition := unwrap fields
    if definition.isEmpty then .error (.badDefinition "The inline schema must not be empty.")
    else .ok definition
  | _ => .error (.badDefinition "The inline schema must be a JSON object.")

/-- An empty name is no name. -/
def givenName (name : Option String) : Option String :=
  name.filter fun n => !n.isEmpty

/-- The definition that an order asks for, none if it asks for none. -/
def resolve (find : String → Option StoredSchema) (o : Order) : Except Failure (Option Fields) :=
  match givenName o.schemaName, o.inlineSchema with
  | some _, some _ =>
    .error (.badDefinition "Provide either a schema name or an inline schema, not both.")
  | some name, none =>
    match find name with
    | some d => .ok (some d.definition)
    | none => .error (.unknownSchema name)
  | none, some v => (inlineDefinition v).map some
  | none, none => .ok none

/-- The schema tree of a definition. -/
def compile (p : Pipeline) : Option Fields → Except Failure (Option Schema.Node)
  | none => .ok none
  | some fields =>
    match Schema.compile p.cap (.object fields) with
    | .ok node => .ok (some node)
    | .error e => .error (.tooDeep e.cap)

end Extraction.Run
