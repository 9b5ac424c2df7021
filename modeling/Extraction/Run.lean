import Extraction.Run.Resolution
import Extraction.Markdown
import Extraction.Overflow
import Extraction.Prompt
import Extraction.Reply
import Extraction.Text.Blank

/-!
A run takes one document from its file to the extracted data: the schema is resolved and compiled,
the text extracted, the model prompted, its reply read, checked and formatted. Each stage needs the
one before it; nothing is tried twice. The first stage that fails ends the run. The calls that were
made come with the result.
-/

namespace Extraction

open Text (Octets)

namespace Run

/-! ### The text -/

/-- What is told about a problem of the collaborators that extract text. -/
def extractionFailed : Failure :=
  .textExtraction "Internal server error while extracting text from the document."

/-- A text of blanks only counts as empty, and so does none. -/
def usableText (text : Option String) : String :=
  match text with
  | some t => if Text.isBlankText t then "" else t
  | none => ""

/-- Has an image prepared, if there is a service for it. -/
def prepare (c : Collaborators) (o : Order) (kind : FileKind) :
    Except Problem Octets × List Call :=
  match kind, c.processImage with
  | .image, some process =>
    let name := o.fileName.getD ""
    let mediaType := FileName.mediaType name
    (process o.content name mediaType, [.processImage o.content name mediaType])
  | _, _ => (.ok o.content, [])

/-- The text of a document. -/
def extract (c : Collaborators) (o : Order) (kind : FileKind) : Except Failure String × List Call :=
  match prepare c o kind with
  | (.error p, calls) => (.error (p.asFailure extractionFailed), calls)
  | (.ok content, calls) =>
    let calls := calls ++ [.readText kind content]
    match c.readText kind content with
    | .error p => (.error (p.asFailure extractionFailed), calls)
    | .ok text => (.ok (usableText text), calls)

/-! ### The reply -/

/-- The model's reply to a prompt. -/
def ask (c : Collaborators) (prompt : String) : Except Failure String :=
  (c.complete prompt).mapError (·.asFailure .lostModel)

/-- The calls that there is room for where a reply is checked. The reader makes one for each
container that it may read, and is itself called four calls deeper. -/
def checkRoom : Nat := Json.nestingLimit + 4

/-- The verdict on a parsed reply. -/
def verdict (p : Pipeline) (node : Schema.Node) (parsed : Value) : Verdict :=
  validateWithin checkRoom node parsed p.strict

/-- The data in a parsed reply: the reply itself, or its normal form under the schema. -/
def check (p : Pipeline) (node : Option Schema.Node) (parsed : Value) : Except Failure Value :=
  match node with
  | none => .ok parsed
  | some node =>
    match verdict p node parsed with
    | .accepted data => .ok data
    | .rejected errors => .error (.invalidReply errors parsed)

/-- The data in the form that the client asked for. The writer of what stands inline is called one
call deeper than the reader, so there is no room to write a value inline that is nested as deep as
can be read. -/
def format (p : Pipeline) (format : OutputFormat) (data : Value) : Except Problem Value :=
  match format with
  | .json => .ok data
  | .markdown =>
    if Json.nestingLimit ≤ Markdown.inlineReach p.cap data then .error .nesting
    else
      match Markdown.render? p.cap data with
      | some text => .ok (.string text)
      | none => .error .longInteger

/-- What follows once the model has been prompted. -/
def finish (p : Pipeline) (c : Collaborators) (o : Order) (definition : Option Fields)
    (node : Option Schema.Node) (kind : FileKind) (text prompt : String) :
    Except Problem Result := do
  let reply ← (ask c prompt).mapError .failure
  let parsed ← (Reply.read reply).mapError .failure
  let data ← (check p node parsed).mapError .failure
  let content ← format p o.format data
  .ok ⟨o.fileName.getD "", o.format, kind, definition, text, reply, parsed, data, content⟩

/-- What follows once the schema is compiled and the kind of the file is known. -/
def proceed (p : Pipeline) (c : Collaborators) (o : Order) (definition : Option Fields)
    (node : Option Schema.Node) (kind : FileKind) : Except Problem Result × List Call :=
  match extract c o kind with
  | (.error f, calls) => (.error (.failure f), calls)
  | (.ok text, calls) =>
    match Prompt.extraction? text (definition.map .object) o.format.name with
    | none => (.error .longInteger, calls)
    | some prompt =>
      (finish p c o definition node kind text prompt, calls ++ [.complete prompt])

/-- What is settled before anyone is asked: the definition, its tree and the kind of the file. -/
def plan (p : Pipeline) (find : String → Option StoredSchema) (o : Order) :
    Except Failure (Option Fields × Option Schema.Node × FileKind) := do
  let definition ← resolve find o
  let node ← compile p definition
  match o.fileName.bind FileKind.ofName? with
  | none => .error (.unsupportedFile o.fileName)
  | some kind => .ok (definition, node, kind)

end Run

/-- Carries out an order, with the stored schemas at hand. The calls that were made come with the
result. -/
def run (p : Pipeline) (find : String → Option StoredSchema) (c : Collaborators) (o : Order) :
    Except Problem Result × List Call :=
  match Run.plan p find o with
  | .error f => (.error (.failure f), [])
  | .ok (definition, node, kind) => Run.proceed p c o definition node kind

/-- Carries out an order whose output format is given by name. -/
def runNamed (p : Pipeline) (find : String → Option StoredSchema) (c : Collaborators)
    (formatName : Value) (o : OutputFormat → Order) : Except Problem Result × List Call :=
  match OutputFormat.named? formatName with
  | some format => run p find c (o format)
  | none =>
    (.error (.badValue (formatName.literal?.getD "" ++ " is not a valid OutputFormat")), [])

end Extraction
