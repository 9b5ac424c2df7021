import Extraction.Extractor
import Extraction.ImageService
import Extraction.Number.Reading
import Extraction.Recognition
import Extraction.Store.Place
import Extraction.Text.Case
import Extraction.Text.Quoted

/-!
Settings, read from the environment: the values of named variables. A variable that is not set has a
default; a number that cannot be read is a problem, the first one in the order of reading.
-/

namespace Extraction

open Number

abbrev Environment := List (String × String)

namespace Environment

def get? (env : Environment) (name : String) : Option String :=
  (env.find? fun entry => entry.1 = name).map Prod.snd

def text (env : Environment) (name default : String) : String :=
  (env.get? name).getD default

/-- A text that is none if it is blank. -/
def optional (env : Environment) (name : String) : Option String :=
  let t := Text.trim (env.text name "")
  if t.isEmpty then none else some t

/-- A switch is on for `1`, `true`, `yes` and `on`, in any letter case. -/
def switch (env : Environment) (name : String) (default : Bool) : Bool :=
  match env.get? name with
  | none => default
  | some t => Text.lower (Text.trim t) ∈ ["1", "true", "yes", "on"]

/-- A complaint quotes this much of a text. -/
def quotedLength : Nat := 200

def integerComplaint (t : String) : ReadingFault → String
  | .malformed =>
    "invalid literal for int() with base 10: " ++
      String.ofList ((Text.quoted t).toList.take quotedLength)
  | .tooLong count => unreadableText count

def integer (env : Environment) (name default : String) : Except Problem Int :=
  let t := env.text name default
  (readInteger t).mapError fun fault => .badValue (integerComplaint t fault)

def float (env : Environment) (name default : String) : Except Problem Binary64 :=
  let t := env.text name default
  match readFloat? t with
  | some x => .ok x
  | none => .error (.badValue ("could not convert string to float: " ++ Text.quoted t))

end Environment

structure Settings where
  extractor : Extractor
  recognizer : Recognizer
  imageServiceUrl : Option String
  imageServiceTimeout : Binary64
  storePath : Option String
  maxUploadBytes : Int
  maxSchemaDepth : Int
  strict : Bool
  logLevel : String
deriving Repr

namespace Settings

def extractorOf (env : Environment) : Except Problem Extractor := do
  let temperature ← env.float "LLM_TEMPERATURE" "0.2"
  let timeout ← env.float "LLM_TIMEOUT_SECONDS" "60"
  .ok ⟨env.text "OPENAI_API_KEY" "", env.text "LLM_MODEL" "gpt-4o-mini", temperature, timeout, 4096⟩

def recognizerOf (env : Environment) : Recognizer :=
  ⟨env.text "OPENAI_API_KEY" "", env.text "VISION_MODEL" "gpt-4.1",
    env.switch "USE_VISION_OCR" true, env.optional "TESSERACT_CMD", 300⟩

def ofEnvironment (env : Environment) : Except Problem Settings := do
  let extractor ← extractorOf env
  let imageServiceTimeout ← env.float "IMAGE_PROCESSOR_TIMEOUT" "30"
  let maxUploadBytes ← env.integer "MAX_UPLOAD_BYTES" "10485760"
  let maxSchemaDepth ← env.integer "MAX_SCHEMA_DEPTH" "32"
  .ok ⟨extractor, recognizerOf env, env.optional "IMAGE_PROCESSOR_URL", imageServiceTimeout,
    env.optional "SCHEMA_STORE_PATH", maxUploadBytes, maxSchemaDepth,
    env.switch "REJECT_UNKNOWN_KEYS" false, env.text "LOG_LEVEL" "INFO"⟩

/-- The cap on the depth of schemas; a number that is not positive means no cap. -/
def depthCap (s : Settings) : Option Int :=
  if 0 < s.maxSchemaDepth then some s.maxSchemaDepth else none

/-- What the service cannot run without. -/
def check (s : Settings) : Except Failure Unit :=
  if Text.isBlankText s.extractor.apiKey then
    .error (.configuration "OPENAI_API_KEY is not set.")
  else if s.maxUploadBytes ≤ 0 then
    .error (.configuration "MAX_UPLOAD_BYTES must be positive.")
  else .ok ()

/-- The image service, if there is one. -/
def imageService (s : Settings) : Option ImageService :=
  s.imageServiceUrl.map fun url => ⟨url, .float s.imageServiceTimeout⟩

/-- What keeps the parts of the service from being put together: a store that is a folder, or a
model without a key. -/
def wiringProblem? (s : Settings) : Option Problem :=
  if s.storePath.any Place.leadsToFolder then some .folder
  else if s.extractor.apiKey.isEmpty then some Extractor.keyless
  else none

end Settings

end Extraction
