import Extraction.Service.Creation
import Extraction.Service.Encoding
import Extraction.Service.Resource
import Extraction.Service.Submission
import Extraction.Settings
import Extraction.Store
import Extraction.Text.Case

/-!
The service: documents are processed, and schemas stored, listed, fetched and deleted. Each request
is answered from the state that the one before it left; only storing and deleting a schema change
the state.
-/

namespace Extraction

open Service

structure Service where
  pipeline : Pipeline
  maxUploadBytes : Int
  store : Store

/-- A response, the calls that were made for it, and the state it leaves. -/
structure Exchange where
  response : Response
  calls : List Call
  service : Service

namespace Service

/-- The service with some settings and an empty store in memory. -/
def ofSettings (s : Settings) (clock : Clock) : Except Failure Service :=
  match s.check with
  | .ok () => .ok ⟨⟨s.depthCap, s.strict⟩, s.maxUploadBytes, .empty clock⟩
  | .error f => .error f

/-- An answer for which nobody was asked and nothing is changed. -/
def answer (s : Service) (r : Response) : Exchange :=
  ⟨r, [], s⟩

/-! ### Stored schemas -/

def health (s : Service) : Exchange :=
  s.answer (.json 200
    (.object [("status", .string "ok"), ("stored_schemas", .int s.store.documents.length)]))

/-- The response with a value that shows some documents, if their form outside can be made. -/
def showing (status : Nat) (documents : List StoredSchema) (v : Value) : Response :=
  if documents.all StoredSchema.isShallow then .json status v else .internalError

def listSchemas (s : Service) : Exchange :=
  let documents := s.store.documents
  s.answer (showing 200 documents (.array (documents.map StoredSchema.toValue)))

def fetchSchema (s : Service) (name : String) : Exchange :=
  match s.store.find? name with
  | some d => s.answer (showing 200 [d] d.toValue)
  | none => s.answer (.ofFailure (.unknownSchema name))

def createSchema (s : Service) (payload : Payload) : Exchange :=
  match Creation.ofPayload payload with
  | .error r => s.answer r
  | .ok c =>
    match s.store.create c.name (StoredSchema.descriptionValue c.description)
        (.object c.definition) with
    | (.ok d, store) => ⟨showing 201 [d] d.toValue, [], { s with store }⟩
    | (.error p, store) => ⟨.ofProblem p, [], { s with store }⟩

def deleteSchema (s : Service) (name : String) : Exchange :=
  match s.store.delete name with
  | (.ok (), store) => ⟨⟨204, .nothing⟩, [], { s with store }⟩
  | (.error p, store) => ⟨.ofProblem p, [], { s with store }⟩

/-! ### Documents -/

/-- The response to a run that succeeded. -/
def respondTo (r : Result) : Response :=
  match r.format, r.content with
  | .markdown, .string text => .markdown text
  | _, content => .json 200 (encode content)

/-- Carries out an order and responds to its outcome. -/
def carryOut (s : Service) (c : Collaborators) (o : Order) : Exchange :=
  match run s.pipeline s.store.find? c o with
  | (.ok r, calls) => ⟨respondTo r, calls, s⟩
  | (.error p, calls) => ⟨.ofProblem p, calls, s⟩

def processDocument (s : Service) (c : Collaborators) (payload : Payload) : Exchange :=
  match Submission.ofPayload payload with
  | .error r => s.answer r
  | .ok submission =>
    match Submission.checkFile s.maxUploadBytes submission.file with
    | .error r => s.answer r
    | .ok () =>
      match submission.order with
      | .error p => s.answer (.ofProblem p)
      | .ok o => s.carryOut c o

/-! ### Requests -/

def notFound : Response := .detail 404 "Not Found"

def notAllowed : Response := .detail 405 "Method Not Allowed"

/-- The response to a request for a page or for the description of the service, whose texts are not
kept here. -/
def introduction (contentType : String) : Response :=
  ⟨200, .withheld (some contentType)⟩

/-- What a method does with a resource. A method in any other place is turned down, HEAD included
unless a page or a description is asked for. -/
def dispatch (s : Service) (c : Collaborators) (method : String) (resource : Resource)
    (payload : Payload) : Exchange :=
  match resource, method with
  | .health, "GET" => s.health
  | .process, "POST" => s.processDocument c payload
  | .schemas, "GET" => s.listSchemas
  | .schemas, "POST" => s.createSchema payload
  | .schema name, "GET" => s.fetchSchema name
  | .schema name, "DELETE" => s.deleteSchema name
  | .page, "GET" | .page, "HEAD" => s.answer (introduction pageType)
  | .description, "GET" | .description, "HEAD" => s.answer (introduction jsonType)
  | _, _ => s.answer notAllowed

/-- Answers a request. -/
def handle (s : Service) (c : Collaborators) (r : Request) : Exchange :=
  let method := Text.upper r.method
  let exchange :=
    match Resource.ofAddress? r.address with
    | some resource => s.dispatch c method resource r.payload
    | none => s.answer notFound
  { exchange with response := exchange.response.sentFor method }

end Service

end Extraction
