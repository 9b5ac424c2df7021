import Extraction.Json.Printer
import Extraction.Json.Reader
import Extraction.Store.Document
import Extraction.Text.Split

/-!
The place on disk where a store is kept: one file in a folder. A new version of the file is written
to a second file beside it, which then takes its place, so that a version is there as a whole or
not at all.
-/

namespace Extraction

/-- What is found under the name of the file. -/
inductive Entry where
  | absent
  | text (s : String)
  | folder
deriving DecidableEq, Repr

structure Place where
  fileName : String
  entry : Entry
  /-- Does an ordinary file stand where the folder should be? -/
  blocked : Bool
  /-- How many second files were left behind. -/
  leftovers : Nat
deriving DecidableEq, Repr

namespace Place

/-- A path in its shortest spelling: no empty steps, no steps that stay in place. Two slashes at the
start, and only two, differ from one. -/
def normalPath (path : String) : String :=
  let slashes := (path.toList.takeWhile (· = '/')).length
  let root := if slashes = 0 then "" else if slashes = 2 then "//" else "/"
  let steps := (Text.splitAt '/' path).filter fun step => step ≠ "" && step ≠ "."
  let rest := String.intercalate "/" steps
  if root.isEmpty && rest.isEmpty then "." else root ++ rest

/-- Folders that are found on every machine. -/
def standingFolders : List String :=
  ["/", "//", ".", "/bin", "/dev", "/etc", "/home", "/proc", "/root", "/tmp", "/usr", "/var"]

/-- Does a path lead to a folder that is found on every machine, or only upwards? -/
def leadsToFolder (path : String) : Bool :=
  let normal := normalPath path
  normal ∈ standingFolders || (Text.splitAt '/' normal).all fun step => step = ".." || step = ""

def writeFailed : Problem :=
  .failure (.storeWrite "Failed to save the schema store.")

/-- What pydantic says of a definition with too many levels. -/
def tooManyLevels : Problem :=
  .badValue "Maximum serialization depth exceeded"

mutual

/-- The first part of a value that cannot be written: an integer that is too long, or a text with
half of a surrogate pair. -/
def obstacle? : Value → Option Problem
  | .int n => if (Number.intText? n).isSome then none else some .longInteger
  | .string s => if Text.isWhole s then none else some .brokenText
  | .array items => obstacleInItems? items
  | .object fields => obstacleInFields? fields
  | _ => none

def obstacleInItems? : List Value → Option Problem
  | [] => none
  | v :: rest => (obstacle? v).or (obstacleInItems? rest)

def obstacleInFields? : List (String × Value) → Option Problem
  | [] => none
  | (name, v) :: rest =>
    if Text.isWhole name then (obstacle? v).or (obstacleInFields? rest) else some .brokenText

end

/-- The text of the file that keeps some documents. -/
def fileText (documents : List StoredSchema) : Except Problem String :=
  let v := Value.array (documents.map StoredSchema.toValue)
  match obstacle? v, Json.print? Json.indented v with
  | some problem, _ => .error problem
  | none, some text => .ok text
  | none, none => .error .longInteger

/-- Begins a second file, unless an ordinary file stands where the folder should be. -/
def openSecond? (p : Place) : Option Place :=
  if p.blocked then none else some { p with leftovers := p.leftovers + 1 }

/-- Takes the second file away. -/
def dropSecond (p : Place) : Place :=
  { p with leftovers := p.leftovers - 1 }

/-- Moves the second file, which has this text, to where the file is, unless a folder stands
there. -/
def moveSecond? (text : String) (p : Place) : Option Place :=
  if p.entry = .folder then none else some { p.dropSecond with entry := .text text }

/-- Writes the documents. A second file that cannot be moved is taken away, but one whose text
cannot be finished is left behind. -/
def write (documents : List StoredSchema) (p : Place) : Except Problem Unit × Place :=
  if !documents.all StoredSchema.isShallow then (.error tooManyLevels, p)
  else
    match p.openSecond? with
    | none => (.error writeFailed, p)
    | some opened =>
      match fileText documents with
      | .error problem => (.error problem, opened)
      | .ok text =>
        match opened.moveSecond? text with
        | some moved => (.ok (), moved)
        | none => (.error writeFailed, opened.dropSecond)

/-- The items of the outermost value of a file. Fields stand for their names, and a text for its
characters. -/
def itemsOf : Value → Except Problem (List Value)
  | .array items => .ok items
  | .object fields => .ok (fields.map fun field => .string field.1)
  | .string s => .ok (s.toList.map fun c => .string (String.singleton c))
  | _ => .error .single

def readFault : Json.Fault → Problem
  | .malformed _ | .constant => .invalidJson
  | .longInteger count => .badValue (Number.unreadableText count)
  | .nesting => .nesting

/-- Puts a document in the place of the one of its name, or at the end. -/
def put (d : StoredSchema) : List StoredSchema → List StoredSchema
  | [] => [d]
  | e :: rest => if e.name = d.name then d :: rest else e :: put d rest

/-- Reads documents one after the other on top of those read before. -/
def readDocuments : (done : List StoredSchema) → List Value → Except Problem (List StoredSchema)
  | done, [] => .ok done
  | done, v :: rest => do
    let d ← (StoredSchema.ofValue v).mapError .badFields
    readDocuments (put d done) rest

def readText (text : String) : Except Problem (List StoredSchema) := do
  let v ← (Json.read true text).mapError readFault
  let items ← itemsOf v
  readDocuments [] items

/-- The documents that the file keeps; none if there is no file. -/
def read (p : Place) : Except Problem (List StoredSchema) :=
  if p.blocked then .ok []
  else
    match p.entry with
    | .absent => .ok []
    | .folder => .error .folder
    | .text text => readText text

/-- A text in which every line break is a line feed. -/
def plainLines : List Char → List Char
  | '\r' :: '\n' :: rest => '\n' :: plainLines rest
  | '\r' :: rest => '\n' :: plainLines rest
  | c :: rest => c :: plainLines rest
  | [] => []

/-- The text of the file as it is shown. -/
def text? (p : Place) : Option String :=
  match p.blocked, p.entry with
  | false, .text s => some (String.ofList (plainLines s.toList))
  | _, _ => none

/-- The names in the folder, in order. -/
def names (p : Place) : List String :=
  ((List.range p.leftovers).map fun i => "." ++ p.fileName ++ "." ++ Number.natText i) ++
    (if p.entry = .absent then [] else [p.fileName])

/-- Puts an empty folder in the place of the file. -/
def block (p : Place) : Place :=
  { p with entry := .folder }

/-- Takes the folder away that stands in the place of the file. -/
def unblock (p : Place) : Place :=
  { p with entry := if p.entry = .folder then .absent else p.entry }

end Place

end Extraction
