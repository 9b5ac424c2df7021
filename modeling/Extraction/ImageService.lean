import Extraction.Json.Reader
import Extraction.Problem
import Extraction.Text.Base64

/-!
The image service, which prepares images before their text is read. It is sent one image and answers
with a JSON object that holds the prepared one in Base64.
-/

namespace Extraction

structure ImageService where
  url : String
  /-- In seconds. -/
  timeout : Value := .int 30
deriving Repr

namespace ImageService

structure Request where
  url : String
  fileName : String
  content : Text.Octets
  mediaType : String
  timeout : Value
deriving Repr

inductive Answer where
  | response (status : Int) (body : String)
  /-- The service could not be reached. -/
  | unreachable
  | problem (p : Problem)
deriving Repr

def emptyFile : Failure :=
  .textExtraction "The file is empty or corrupted."

def unexpectedText : String :=
  "The image processing service failed or returned an unexpected response."

def unexpectedBody : Failure :=
  .textExtraction "The image processing service returned an unexpected response."

/-- The text that a JSON object holds under a name. -/
def textField? (name : String) : Value → Option String
  | .object fields =>
    match Value.lookup? name fields with
    | some (.string s) => some s
    | _ => none
  | _ => none

/-- The body as JSON, if it is JSON; only nesting beyond the limit is a problem of its own. -/
def bodyValue? (body : String) : Except Problem (Option Value) :=
  match Json.read true body with
  | .ok v => .ok (some v)
  | .error .nesting => .error .nesting
  | .error _ => .ok none

/-- The image in the body of a successful answer. -/
def image (body : String) : Except Problem Text.Octets := do
  let v ← bodyValue? body
  match (v.bind (textField? "image_base64")).bind Text.Base64.decode? with
  | some octets => .ok octets
  | none => .error (.failure unexpectedBody)

/-- The failure that an answer with another status reports. -/
def refusal (status : Int) (body : String) : Except Problem Text.Octets := do
  let v ← bodyValue? body
  let detail := (v.bind (textField? "detail")).getD unexpectedText
  .error (.failure (.textExtraction
    ("Error " ++ String.ofList (Number.intChars status) ++ ": " ++ detail)))

/-- What an answer comes to. -/
def receive : Answer → Except Problem Text.Octets
  | .unreachable => .error (.failure (.textExtraction unexpectedText))
  | .problem p => .error p
  | .response status body =>
    if 200 ≤ status && status < 300 then image body else refusal status body

def request (s : ImageService) (content : Text.Octets) (fileName mediaType : String) : Request :=
  ⟨s.url, fileName, content, mediaType, s.timeout⟩

/-- Sends an image, unless it is empty, and reads the answer. The requests that were made come with
the result. -/
def process (s : ImageService) (respond : Request → Answer) (content : Text.Octets)
    (fileName mediaType : String) : Except Problem Text.Octets × List Request :=
  if content.isEmpty then (.error (.failure emptyFile), [])
  else
    let r := s.request content fileName mediaType
    (receive (respond r), [r])

end ImageService

end Extraction
