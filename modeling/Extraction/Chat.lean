import Extraction.Problem

/-!
Conversations with a language model: what is sent, and the ways in which an answer may turn out.
-/

namespace Extraction.Chat

/-- A piece of a message. -/
inductive Part where
  | text (s : String)
  | image (url : String)
deriving DecidableEq, Repr

inductive Content where
  | text (s : String)
  | parts (ps : List Part)
deriving DecidableEq, Repr

structure Message where
  role : String
  content : Content
deriving DecidableEq, Repr

structure Request where
  model : String
  messages : List Message
  temperature : Option Number.Binary64
  maxTokens : Nat
  /-- Must the answer be a JSON object? -/
  jsonOnly : Bool
deriving DecidableEq, Repr

/-- What comes back for a request. -/
inductive Answer where
  /-- The first choice, whose text may be missing. -/
  | content (text : Option String)
  | noChoices
  | problem (p : Problem)
deriving Repr

def Part.toValue : Part → Value
  | text s => .object [("type", .string "text"), ("text", .string s)]
  | image url =>
    .object [("type", .string "image_url"), ("image_url", .object [("url", .string url)])]

def Content.toValue : Content → Value
  | text s => .string s
  | parts ps => .array (ps.map Part.toValue)

def Message.toValue (m : Message) : Value :=
  .object [("role", .string m.role), ("content", m.content.toValue)]

/-- The request as it is sent. -/
def Request.toValue (r : Request) : Value :=
  .object ([("model", .string r.model), ("messages", .array (r.messages.map Message.toValue))] ++
    (r.temperature.map fun t => ("temperature", .float t)).toList ++
    [("max_tokens", .int r.maxTokens)] ++
    (if r.jsonOnly then [("response_format", .object [("type", .string "json_object")])] else []))

end Extraction.Chat
