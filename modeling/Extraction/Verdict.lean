import Extraction.Schema.Node
import Extraction.Value.AsDate
import Extraction.Value.Display
import Extraction.Violation

/-!
Checking a value against a schema tree. All violations are collected, each at its location; if
there are none the value is accepted in its normal form, in which each object has exactly its
declared fields in declared order, dates are read, and missing nullable fields are null.

A malformed tree breaks the check off; the verdict then reports the breakdown alone.
-/

namespace Extraction

open Schema

/-- One violation at the value itself, whose place the null takes. -/
def violated (v : Violation) : Except Breakdown (Value × List Note) :=
  .ok (.null, [⟨[], v⟩])

/-- The violation of a scalar by a value of another kind. -/
def Schema.Scalar.refuse (s : Scalar) (received : Value) :
    Except Breakdown (Value × List Note) :=
  match s.label? with
  | some label => violated (.expected label received.kind)
  | none => .error .unnamedType

/-- A value that is not null against a scalar without literals. -/
def Schema.Scalar.checkBase (s : Scalar) (v : Value) : Except Breakdown (Value × List Note) :=
  match s.base, v with
  | .any, v => .ok (v, [])
  | .string, .string t => .ok (.string t, [])
  | .boolean, .bool b => .ok (.bool b, [])
  | .number, .int n => .ok (.int n, [])
  | .number, .float (.finite sign m) => .ok (.float (.finite sign m), [])
  | .date, v =>
    match v.asDate? with
    | some reading => .ok (reading.toValue, [])
    | none => violated .invalidDate
  | .unknown name, _ => .error (.unknownType name)
  | _, v => s.refuse v

/-- A value that is not null against a list of literals. -/
def Schema.Scalar.checkLiteral (literals : List String) (v : Value) :
    Except Breakdown (Value × List Note) :=
  let refuse :=
    match v.display? with
    | some shown => violated (.notListed (Scalar.quotedLiterals literals) shown)
    | none => .error .longInteger
  match v with
  | .string t => if t ∈ literals then .ok (.string t, []) else refuse
  | _ => refuse

def Schema.Scalar.check (s : Scalar) (v : Value) : Except Breakdown (Value × List Note) :=
  match v with
  | .null => if s.nullable || s.base = .any then .ok (.null, []) else s.refuse .null
  | v =>
    match s.literals with
    | some literals => Scalar.checkLiteral literals v
    | none => s.checkBase v

/-- The elements of a list, one by one, from an index on. -/
def visitItems (visit : Value → Except Breakdown (Value × List Note)) :
    (index : Nat) → List Value → Except Breakdown (List Value × List Note)
  | _, [] => .ok ([], [])
  | i, v :: rest => do
    let (w, notes) ← visit v
    let (ws, more) ← visitItems visit (i + 1) rest
    .ok (w :: ws, notes.map (Note.under (.index i)) ++ more)

def declares (nodes : List (String × Node)) (name : String) : Bool :=
  nodes.any fun entry => entry.1 = name

/-- The keys of an object that its node does not declare, in the order of the object. -/
def undeclared (nodes : List (String × Node)) (fields : List (String × Value)) : List String :=
  (fields.filter fun field => !declares nodes field.1).map Prod.fst

mutual

/-- Checks a value against a node. In strict mode an object must not have undeclared keys. -/
def Schema.Node.visit (strict : Bool) : Node → Value → Except Breakdown (Value × List Note)
  | .scalar s, v => s.check v
  | .array item, v =>
    match v with
    | .array items => do
      let (ws, notes) ← visitItems (Node.visit strict item) 0 items
      .ok (.array ws, notes)
    | v => violated (.expected "array" v.kind)
  | .object nodes, v =>
    match v with
    | .object fields => do
      let (ws, notes) ← visitFields strict nodes fields
      let extra := if strict then undeclared nodes fields else []
      .ok (.object ws, notes ++ extra.map fun name => ⟨[], .unrecognizedKey name⟩)
    | v => violated (.expected "object" v.kind)
  | .foreign kind, _ => .error (.foreignNode kind)

/-- The declared fields of an object, in declared order. -/
def Schema.Node.visitFields (strict : Bool) : List (String × Node) → List (String × Value) →
    Except Breakdown (List (String × Value) × List Note)
  | [], _ => .ok ([], [])
  | (name, node) :: rest, fields => do
    let (w, notes) ← Node.visit strict node (Value.fieldOrNull name fields)
    let (ws, more) ← visitFields strict rest fields
    .ok ((name, w) :: ws, notes.map (Note.under (.field name)) ++ more)

end

/-- Messages by path, in the order in which the paths were first used. -/
abbrev ErrorMap := List (String × List String)

namespace ErrorMap

def add (path message : String) : ErrorMap → ErrorMap
  | [] => [(path, [message])]
  | (p, messages) :: rest =>
    if p = path then (p, messages ++ [message]) :: rest else (p, messages) :: add path message rest

def ofNotes (notes : List Note) : ErrorMap :=
  notes.foldl (fun errors n => add n.location.path n.violation.message errors) []

def toValue (errors : ErrorMap) : Value :=
  .object (errors.map fun (path, messages) => (path, .array (messages.map .string)))

end ErrorMap

inductive Verdict where
  | accepted (data : Value)
  | rejected (errors : ErrorMap)
deriving Repr

/-- The errors that a verdict reports; an accepted value has none. -/
def Verdict.errors : Verdict → ErrorMap
  | .accepted _ => []
  | .rejected errors => errors

/-- The path under which a breakdown is reported. -/
def schemaPath : String := "_schema"

/-- The verdict on a value, if there is room for all the calls that the check makes. -/
def validate (node : Node) (v : Value) (strict : Bool) : Verdict :=
  match node.visit strict v with
  | .error b => .rejected [(schemaPath, [s!"Internal error: {b.message}"])]
  | .ok (data, []) => .accepted data
  | .ok (_, notes) => .rejected (ErrorMap.ofNotes notes)

end Extraction
