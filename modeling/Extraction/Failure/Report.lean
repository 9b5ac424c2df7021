import Extraction.Failure
import Extraction.Value.Display

/-!
Reports of failures from loose details. A class of failures takes a number of details of its own;
some classes also take a cause, which shows up in the text for the log alone.
-/

namespace Extraction

structure Failure.Report where
  failureClass : Failure.Class
  message : Value
  /-- What is reported beside the class and the message. -/
  extra : Fields
  cause : Option Value
deriving Repr

/-- Does a value count as something? Null, false, zero and what is empty do not. -/
def Value.isSomething : Value → Bool
  | .null | .string "" | .array [] | .object [] => false
  | .bool b => b
  | .int n => n ≠ 0
  | .float (.finite _ m) => m.units ≠ 0
  | _ => true

namespace Failure.Report

/-- The cause among the details behind the first one, or the one that is known already. Two causes
are too many. -/
def causeOf? (details : List Value) (known : Option String) : Option (Option Value) :=
  match details, known with
  | [], known => some (known.map .string)
  | [v], none => some (if v.isSomething then some v else none)
  | _, _ => none

/-- A report whose message quotes the only detail. -/
def quoting (c : Failure.Class) (message : String → String) (key : String) (detail : Value) :
    Report :=
  ⟨c, .string (message (detail.display?.getD "")), [(key, detail)], none⟩

/-- The report with these details and a known cause, if the class takes them. -/
def ofDetails? (c : Failure.Class) (details : List Value) (cause : Option String) :
    Option Report :=
  match c, details, cause with
  | .unsupportedFile, [name], none => some (quoting c Failure.unsupportedText "filename" name)
  | .tooDeep, [cap], none => some (quoting c Failure.depthText "max_depth" cap)
  | .unknownSchema, [name], none => some (quoting c Failure.unknownText "schemaName" name)
  | .schemaExists, [name], none => some (quoting c Failure.existsText "schemaName" name)
  | .emptyReply, [], none => some ⟨c, .string Failure.silentModel.message, [], none⟩
  | .emptyReply, [message], none => some ⟨c, message, [], none⟩
  | .invalidReply, [errors, data], none =>
    some ⟨c, .string Failure.invalidText, Failure.invalidFields errors data, none⟩
  | .unreadableReply, raw :: rest, cause => do
    let cause ← causeOf? rest cause
    some ⟨c, .string Failure.unreadableText, [("rawResponse", raw)], cause⟩
  | .general, message :: rest, cause | .configuration, message :: rest, cause
  | .badDefinition, message :: rest, cause | .storeWrite, message :: rest, cause
  | .textExtraction, message :: rest, cause | .modelUnreachable, message :: rest, cause => do
    let cause ← causeOf? rest cause
    some ⟨c, message, [], cause⟩
  | _, _, _ => none

/-- The report as fields. -/
def payload (r : Report) : Fields :=
  ("error", .string r.failureClass.kind) :: ("message", r.message) :: r.extra

/-- The text for the log. A message that is no text has none unless there is a cause. -/
def logText? (r : Report) : Option String :=
  match r.message, r.cause with
  | message, some cause => do
    let m ← message.display?
    let c ← cause.display?
    some (m ++ " (caused by: " ++ c ++ ")")
  | .string m, none => some m
  | _, none => none

end Failure.Report

end Extraction
