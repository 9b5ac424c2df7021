/-!
The classes of failures. A class settles under which name and with which status a failure is
reported; every class is a special case of another one, up to the failures in general.
-/

namespace Extraction

inductive Failure.Class where
  | general
  | configuration
  | unsupportedFile
  | badDefinition
  | tooDeep
  | unknownSchema
  | schemaExists
  | storeWrite
  | textExtraction
  | emptyReply
  | modelUnreachable
  | unreadableReply
  | invalidReply
deriving DecidableEq, Repr

namespace Failure.Class

/-- The name of a class in reports. -/
def kind : Failure.Class → String
  | general => "InternalError"
  | configuration => "ConfigurationError"
  | unsupportedFile => "UnsupportedFileType"
  | badDefinition => "InvalidSchemaDefinition"
  | tooDeep => "SchemaTooDeep"
  | unknownSchema => "SchemaNotFound"
  | schemaExists => "SchemaConflict"
  | storeWrite => "SchemaStoreError"
  | textExtraction => "TextExtractionError"
  | emptyReply => "LLMEmptyResponse"
  | modelUnreachable => "LLMCommunicationError"
  | unreadableReply => "ResponseParseError"
  | invalidReply => "ValidationError"

/-- The status with which a failure is answered. -/
def status : Failure.Class → Nat
  | unsupportedFile => 415
  | badDefinition | tooDeep => 400
  | unknownSchema => 404
  | schemaExists => 409
  | emptyReply | modelUnreachable | unreadableReply => 502
  | invalidReply => 422
  | general | configuration | storeWrite | textExtraction => 500

/-- The class itself and those that it is a special case of, up to the general one. -/
def line : Failure.Class → List Failure.Class
  | general => [general]
  | tooDeep => [tooDeep, badDefinition, general]
  | c => [c, general]

end Failure.Class

end Extraction
