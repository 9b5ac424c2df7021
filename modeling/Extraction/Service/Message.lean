import Extraction.Problem
import Extraction.Service.Address
import Extraction.Service.Form
import Extraction.Value.Kept

/-!
Requests to the service and its responses.
-/

namespace Extraction.Service

open Text (Octets)

/-- What a request carries. -/
inductive Payload where
  | nothing
  | json (content : Octets)
  | form (parts : List Part)
deriving DecidableEq, Repr

structure Request where
  method : String
  address : Address
  payload : Payload
deriving DecidableEq, Repr

inductive Body where
  | json (v : Value)
  /-- The report on a request whose fields have faults. -/
  | faults (fs : List FieldFault)
  | markdown (s : String)
  | plain (s : String)
  | nothing
  /-- A body that is held back; what it would have been is still declared. -/
  | withheld (contentType : Option String)
deriving Repr

def jsonType : String := "application/json"

def pageType : String := "text/html; charset=utf-8"

def Body.contentType : Body → Option String
  | json _ | faults _ => some jsonType
  | markdown _ => some "text/markdown; charset=utf-8"
  | plain _ => some "text/plain; charset=utf-8"
  | nothing => none
  | withheld contentType => contentType

structure Response where
  status : Nat
  body : Body
deriving Repr

namespace Response

/-- The response to what the service did not expect. -/
def internalError : Response :=
  ⟨500, .plain "Internal Server Error"⟩

/-- Can a value be sent? JSON has no numbers beyond the finite ones, and halves of surrogate pairs
have no octets. -/
def canSend (v : Value) : Bool :=
  v.allFinite && v.isWhole

def json (status : Nat) (v : Value) : Response :=
  if canSend v then ⟨status, .json v⟩ else internalError

def markdown (text : String) : Response :=
  if Text.isWhole text then ⟨200, .markdown text⟩ else internalError

/-- A response that says in one sentence why the request was turned down. -/
def detail (status : Nat) (reason : String) : Response :=
  ⟨status, .json (.object [("detail", .string reason)])⟩

/-- The response as it is sent for a method: a HEAD request is answered without the body. -/
def sentFor (method : String) (r : Response) : Response :=
  if method = "HEAD" then ⟨r.status, .withheld r.body.contentType⟩ else r

end Response

end Extraction.Service
