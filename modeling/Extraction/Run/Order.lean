import Extraction.FileName
import Extraction.Problem
import Extraction.Text.Utf8

/-!
What goes into a run and what comes out of it. Everything outside the service is asked through
`Collaborators`, and every question is recorded as a `Call`.
-/

namespace Extraction

open Text (Octets)

inductive OutputFormat where
  | json
  | markdown
deriving DecidableEq, Repr

namespace OutputFormat

def name : OutputFormat → String
  | json => "json"
  | markdown => "md"

def ofName? (name : String) : Option OutputFormat :=
  if name = "json" then some .json else if name = "md" then some .markdown else none

/-- The format that a value names. -/
def named? : Value → Option OutputFormat
  | .string name => ofName? name
  | _ => none

end OutputFormat

/-- What a run is asked to do. -/
structure Order where
  /-- A file without a name has no kind that is supported. -/
  fileName : Option String
  content : Octets
  format : OutputFormat
  schemaName : Option String
  inlineSchema : Option Value
deriving Repr

/-- A question to a collaborator. -/
inductive Call where
  | processImage (content : Octets) (fileName mediaType : String)
  | readText (kind : FileKind) (content : Octets)
  | complete (prompt : String)
deriving DecidableEq, Repr

/-- Those who are asked during a run. -/
structure Collaborators where
  /-- The image service, if there is one. -/
  processImage : Option (Octets → String → String → Except Problem Octets)
  readText : FileKind → Octets → Except Problem (Option String)
  complete : String → Except Problem String

/-- How runs are carried out. -/
structure Pipeline where
  cap : Option Int
  strict : Bool
deriving DecidableEq, Repr

/-- What a run that succeeds has found out. -/
structure Result where
  fileName : String
  format : OutputFormat
  kind : FileKind
  definition : Option Fields
  text : String
  reply : String
  parsed : Value
  data : Value
  /-- What the client receives: the data, or its Markdown text. -/
  content : Value
deriving Repr

end Extraction
