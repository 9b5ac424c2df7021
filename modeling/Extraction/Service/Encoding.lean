import Extraction.Service.Message

/-!
Values as they are sent to clients, which is what FastAPI's encoder makes of them: dates become
their ISO texts, and fields whose names start with `_sa` are left out, as those are taken for
bookkeeping of a database layer.
-/

namespace Extraction.Service

/-- Is a field of this name left out? -/
def isBookkeeping (name : String) : Bool :=
  ['_', 's', 'a'].isPrefixOf name.toList

mutual

def encode : Value → Value
  | .array items => .array (encodeItems items)
  | .object fields => .object (encodeFields fields)
  | .date d => .string d.isoText
  | .dateTime t => .string t.isoText
  | v => v

def encodeItems : List Value → List Value
  | [] => []
  | v :: rest => encode v :: encodeItems rest

def encodeFields : List (String × Value) → List (String × Value)
  | [] => []
  | (name, v) :: rest =>
    if isBookkeeping name then encodeFields rest else (name, encode v) :: encodeFields rest

end

/-- The response to a failure is its report. -/
def Response.ofFailure (f : Failure) : Response :=
  .json f.status (encode (.object f.payload))

/-- The report on faulty fields, which also shows what was found in them. -/
def Response.faults (fs : List FieldFault) : Response :=
  if fs.all fun f => canSend (encode f.found) then ⟨422, .faults fs⟩ else internalError

/-- Of problems only failures are reported. -/
def Response.ofProblem : Problem → Response
  | .failure f => .ofFailure f
  | _ => .internalError

end Extraction.Service
