import Extraction.Chat
import Extraction.Prompt
import Extraction.Text.Base64
import Extraction.Text.Blank

/-!
Reading the text of documents. A page of a PDF file has a text layer or is a scan; the text of a
scan, as of an image file, is first asked of a vision model and then, if that gives too little, of
the recognition engine, which sees the enhanced image and then the raw one.

The vision model and the engine are given as the answers to their first, second, … call; the calls
that were made are recorded.
-/

namespace Extraction

open Text (Octets)

structure Recognizer where
  apiKey : String
  visionModel : String
  useVision : Bool
  /-- The command that starts the engine, if it is not the usual one. -/
  engineCommand : Option String
  renderDpi : Nat
deriving DecidableEq, Repr

namespace Recognizer

/-- Is there a vision model to ask? -/
def hasVision (r : Recognizer) : Bool :=
  r.useVision && !r.apiKey.isEmpty

/-- The command that starts the engine. -/
def command (r : Recognizer) : String :=
  match r.engineCommand with
  | some c => if c.isEmpty then "tesseract" else c
  | none => "tesseract"

end Recognizer

namespace Recognition

/-- An image as the engine is given it: as it is, or after its enhancement. -/
inductive Picture where
  | raw (image : Octets)
  | enhanced (image : Octets)
deriving DecidableEq, Repr

/-- A call of the engine: what it is shown, and its options. -/
structure EngineCall where
  picture : Picture
  options : String
deriving DecidableEq, Repr

/-- The calls that were made, in order. -/
structure Calls where
  vision : List Chat.Request := []
  engine : List EngineCall := []
deriving DecidableEq, Repr

/-- The answers to the calls, counted from zero. -/
structure Oracle where
  vision : Option (Nat → Chat.Answer)
  engine : Nat → Except Problem String

/-- A page of a PDF file: its text layer, and its image at a resolution. -/
structure Page where
  text : String
  render : (dpi : Nat) → Octets

/-- The address that carries an image in itself. -/
def dataUrl (mediaType : String) (image : Octets) : String :=
  "data:" ++ mediaType ++ ";base64," ++ Text.Base64.encode image

def visionRequest (model mediaType : String) (image : Octets) : Chat.Request where
  model := model
  messages := [⟨"user", .parts [.text Prompt.transcription, .image (dataUrl mediaType image)]⟩]
  temperature := none
  maxTokens := 2000
  jsonOnly := false

/-- The text in an answer of the vision model; whatever goes wrong there is none. -/
def visionText : Chat.Answer → Option String
  | .content (some text) => some (Text.trim text)
  | _ => none

/-- Asks the vision model, if there is one. -/
def askVision (o : Oracle) (model mediaType : String) (image : Octets) (calls : Calls) :
    Option String × Calls :=
  match o.vision with
  | none => (none, calls)
  | some answers =>
    (visionText (answers calls.vision.length),
      { calls with vision := calls.vision ++ [visionRequest model mediaType image] })

/-- A text of the vision model is used if it is longer than this. -/
def leastVisionLength : Nat := 20

def enoughText (text : Option String) : Option String :=
  text.filter fun t => leastVisionLength < t.length

/-- Asks the engine. -/
def askEngine (o : Oracle) (call : EngineCall) (calls : Calls) : Except Problem String × Calls :=
  ((o.engine calls.engine.length).map Text.trim,
    { calls with engine := calls.engine ++ [call] })

/-- The options under which the engine takes an image as one block of text. -/
def blockOptions : String := "--oem 3 --psm 6"

/-- The engine's text: of the enhanced image, or if that is blank, of the raw one. -/
def engineText (o : Oracle) (image : Octets) (calls : Calls) : Except Problem String × Calls :=
  match askEngine o ⟨.enhanced image, blockOptions⟩ calls with
  | (.ok "", calls) => askEngine o ⟨.raw image, ""⟩ calls
  | done => done

/-- The text of an image. -/
def imageText (o : Oracle) (model mediaType : String) (image : Octets) (calls : Calls) :
    Except Problem String × Calls :=
  let (seen, calls) := askVision o model mediaType image calls
  match enoughText seen with
  | some text => (.ok text, calls)
  | none => engineText o image calls

/-- The text of a page: its text layer, or if that is blank, the text of its image. -/
def pageText (o : Oracle) (r : Recognizer) (page : Page) (calls : Calls) :
    Except Problem String × Calls :=
  let layer := Text.trim page.text
  if layer.isEmpty then
    imageText o r.visionModel "image/png" (page.render r.renderDpi) calls
  else (.ok layer, calls)

/-- The texts of the pages one after the other, up to the first problem. -/
def pageTexts (o : Oracle) (r : Recognizer) : List Page → Calls →
    Except Problem (List String) × Calls
  | [], calls => (.ok [], calls)
  | page :: rest, calls =>
    match pageText o r page calls with
    | (.error p, calls) => (.error p, calls)
    | (.ok text, calls) =>
      match pageTexts o r rest calls with
      | (.error p, calls) => (.error p, calls)
      | (.ok texts, calls) => (.ok (text :: texts), calls)

/-- The texts that are not empty, with a blank line between them. -/
def joinPages (texts : List String) : String :=
  String.intercalate "\n\n" (texts.filter fun t => !t.isEmpty)

/-- The text of a PDF file, given its pages or why it cannot be opened. -/
def pdfText (o : Oracle) (r : Recognizer) (pages : Except Problem (List Page)) (calls : Calls) :
    Except Problem String × Calls :=
  match pages with
  | .error p => (.error p, calls)
  | .ok pages =>
    match pageTexts o r pages calls with
    | (.error p, calls) => (.error p, calls)
    | (.ok texts, calls) => (.ok (joinPages texts), calls)

/-- The media type of an image format. -/
def formatType (format : Option String) : String :=
  match format with
  | some "JPEG" => "image/jpeg"
  | some "GIF" => "image/gif"
  | some "BMP" | some "DIB" => "image/bmp"
  | some "PPM" => "image/x-portable-anymap"
  | _ => "image/png"

/-- The text of an image file in a format. -/
def imageFileText (o : Oracle) (r : Recognizer) (format : Option String) (content : Octets)
    (calls : Calls) : Except Problem String × Calls :=
  imageText o r.visionModel (formatType format) content calls

end Recognition

end Extraction
