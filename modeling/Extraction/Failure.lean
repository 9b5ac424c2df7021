import Extraction.Failure.Class
import Extraction.Verdict

/-!
Failures: the ways in which the service fails that its clients are told about. Each has a kind, a
message, a status and possibly further fields. What caused a failure is for the log and is not part
of it, so nothing of a cause can reach a client.
-/

namespace Extraction

inductive Failure where
  | internal (message : String)
  | configuration (message : String)
  | unsupportedFile (name : Option String)
  | badDefinition (message : String)
  | tooDeep (cap : Int)
  | unknownSchema (name : String)
  | schemaExists (name : String)
  | storeWrite (message : String)
  | textExtraction (message : String)
  | emptyReply (message : String)
  | modelUnreachable (message : String)
  | unreadableReply (raw : String)
  | invalidReply (errors : ErrorMap) (data : Value)
deriving Repr

namespace Failure

def failureClass : Failure → Failure.Class
  | internal _ => .general
  | configuration _ => .configuration
  | unsupportedFile _ => .unsupportedFile
  | badDefinition _ => .badDefinition
  | tooDeep _ => .tooDeep
  | unknownSchema _ => .unknownSchema
  | schemaExists _ => .schemaExists
  | storeWrite _ => .storeWrite
  | textExtraction _ => .textExtraction
  | emptyReply _ => .emptyReply
  | modelUnreachable _ => .modelUnreachable
  | unreadableReply _ => .unreadableReply
  | invalidReply _ _ => .invalidReply

def kind (f : Failure) : String :=
  f.failureClass.kind

def status (f : Failure) : Nat :=
  f.failureClass.status

/-! ### Messages -/

def unsupportedText (name : String) : String :=
  "Unsupported file type: '" ++ name ++ "'"

def depthText (cap : String) : String :=
  "Schema nesting exceeds the maximum depth of " ++ cap

def unknownText (name : String) : String :=
  "Schema '" ++ name ++ "' not found"

def existsText (name : String) : String :=
  "A schema named '" ++ name ++ "' already exists"

def unreadableText : String :=
  "The model response is not valid JSON."

def invalidText : String :=
  "The LLM response is invalid. Please check the validation errors."

def message : Failure → String
  | internal m | configuration m | badDefinition m | storeWrite m | textExtraction m
  | emptyReply m | modelUnreachable m => m
  | unsupportedFile name => unsupportedText (name.getD "None")
  | tooDeep cap => depthText (String.ofList (Number.intChars cap))
  | unknownSchema name => unknownText name
  | schemaExists name => existsText name
  | unreadableReply _ => unreadableText
  | invalidReply _ _ => invalidText

/-! ### Reports -/

def invalidFields (errors data : Value) : Fields :=
  [("validationErrors", errors), ("extractedData", data)]

/-- What is reported beside the kind and the message. -/
def extra : Failure → Fields
  | unsupportedFile name => [("filename", (name.map Value.string).getD .null)]
  | tooDeep cap => [("max_depth", .int cap)]
  | unknownSchema name | schemaExists name => [("schemaName", .string name)]
  | unreadableReply raw => [("rawResponse", .string raw)]
  | invalidReply errors data => invalidFields errors.toValue data
  | _ => []

/-- The report of a failure. -/
def payload (f : Failure) : Fields :=
  ("error", .string f.kind) :: ("message", .string f.message) :: f.extra

/-- The model answered with no text. -/
def silentModel : Failure :=
  emptyReply "The model returned an empty response."

/-- The call of the model came to nothing. -/
def lostModel : Failure :=
  modelUnreachable "Failed to communicate with the AI service."

end Failure

end Extraction
