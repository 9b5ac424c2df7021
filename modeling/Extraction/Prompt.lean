import Extraction.Json.Printer

/-!
Prompts: the texts that instruct the language models. Extraction is prompted with the document and,
if there is one, the schema to fill; transcription with an image alone.
-/

namespace Extraction.Prompt

/-- The standing instruction of every extraction. -/
def system : String :=
  "You are a document data extraction assistant. Respond only with a single valid JSON object."

/-- The instruction to transcribe an image. -/
def transcription : String :=
  "Extract ALL text from this document image. Preserve the reading order and line structure. " ++
    "Return ONLY the extracted text, without comments."

/-- What a prompt calls an output format. -/
def formatLabel (format : String) : String :=
  if format = "json" then "JSON"
  else if format = "md" then "Markdown (rendered from your JSON object)"
  else format

/-- The instruction to choose a structure. -/
def freeTask : String :=
  "Given the document text below, identify the information it contains and\n" ++
  "return it as a JSON object with a reasonable structure that you infer from the text.\n" ++
  "Use short snake_case field names, nested objects for related fields and arrays for\n" ++
  "repeated items. Use null for values that are not present.\n"

/-- The instruction to fill a schema. -/
def schemaTask : String :=
  "Given the document text below, extract and return a JSON object with the following exact " ++
  "fields.\n" ++
  "Do not include any additional fields, and use the property names and structure exactly as " ++
  "shown.\n" ++
  "Each value must have the declared type. Values written as \"A | B\" must be one of the " ++
  "listed options.\n" ++
  "If any optional data is not present in the text, return the field with null.\n"

/-- What the answer must look like. -/
def answerRules (format : String) : String :=
  "Target output format: " ++ formatLabel format ++ ".\n" ++
  "Return a valid JSON object only. Do not add explanations or markdown formatting.\n"

def schemaSection (json : String) : String :=
  "\nField schema:\n" ++ json ++ "\n"

def documentSection (document : String) : String :=
  "\nDocument:\n\"\"\"" ++ document ++ "\"\"\"\n"

/-- The prompt for a document; none if the schema holds an integer that is too long to be
written. -/
def extraction? (document : String) (schema : Option Value) (format : String) : Option String :=
  match schema with
  | none => some (freeTask ++ answerRules format ++ documentSection document)
  | some definition =>
    (Json.print? Json.indented definition).map fun json =>
      schemaTask ++ answerRules format ++ schemaSection json ++ documentSection document

end Extraction.Prompt
