import Extraction.Chat
import Extraction.Prompt
import Extraction.Text.Blank

/-!
The extraction model. A prompt is sent once, and every way in which no text comes back is a failure
of its own kind.
-/

namespace Extraction

structure Extractor where
  apiKey : String
  model : String
  temperature : Number.Binary64
  timeout : Number.Binary64
  maxTokens : Nat
deriving DecidableEq, Repr

namespace Extractor

/-- A call is never repeated. -/
def maxRetries : Nat := 0

/-- Without a key there is no model to ask. -/
def keyless : Problem :=
  .foreign "OpenAIError" "The api_key client option must be set."

def request (x : Extractor) (prompt : String) : Chat.Request where
  model := x.model
  messages := [⟨"system", .text Prompt.system⟩, ⟨"user", .text prompt⟩]
  temperature := some x.temperature
  maxTokens := x.maxTokens
  jsonOnly := true

/-- The text of an answer; a blank one counts as none. -/
def reply : Chat.Answer → Except Failure String
  | .problem _ => .error .lostModel
  | .noChoices | .content none => .error .silentModel
  | .content (some text) => if Text.isBlankText text then .error .silentModel else .ok text

end Extractor

end Extraction
