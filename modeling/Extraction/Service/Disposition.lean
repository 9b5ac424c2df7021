import Extraction.FileName
import Extraction.Text.Blank
import Extraction.Text.Split

/-!
Parameters in the header line of a part of a form: names with values, divided by semicolons. A value
may stand in quotes, which protect the semicolons in it. Octets are read as one character each.
-/

namespace Extraction.Service.Disposition

/-- Adds a character to the first piece. -/
def consFirst (c : Char) : List (List Char) → List (List Char)
  | [] => [[c]]
  | piece :: pieces => (c :: piece) :: pieces

/-- The pieces between the semicolons that no quote protects. A quote behind a backslash does not
count. -/
def pieces (quoted afterBackslash : Bool) : List Char → List (List Char)
  | [] => [[]]
  | c :: cs =>
    if c = ';' && !quoted then [] :: pieces false false cs
    else
      let quoted := if c = '"' && !afterBackslash then !quoted else quoted
      consFirst c (pieces quoted (c = '\\') cs)

/-- Each `first` with a `second` behind it becomes that `second`. -/
def dropBefore (first second : Char) : List Char → List Char
  | c :: d :: rest =>
    if c = first && d = second then second :: dropBefore first second rest
    else c :: dropBefore first second (d :: rest)
  | cs => cs

/-- What two marks enclose. -/
def between? (opening closing : Char) (cs : List Char) : Option (List Char) :=
  if 1 < cs.length && cs.head? = some opening && cs.getLast? = some closing then
    some (cs.drop 1).dropLast
  else none

/-- A value without the quotes or angle brackets around it. In quotes, backslashes that stand before
backslashes are dropped first, and then those that stand before quotes. -/
def unquoted (value : List Char) : List Char :=
  match between? '"' '"' value with
  | some inner => dropBefore '\\' '"' (dropBefore '\\' '\\' inner)
  | none => (between? '<' '>' value).getD value

/-- A piece as a name and a value. A piece without an equals sign is a name alone. -/
def parameter (piece : List Char) : List Char × List Char :=
  match piece.dropWhile (· ≠ '=') with
  | '=' :: value =>
    (Text.trimChars ((piece.takeWhile (· ≠ '=')).map Char.toLower), unquoted (Text.trimChars value))
  | _ => (Text.trimChars piece, [])

/-- The parameters behind the first piece of a header. -/
def parameters (header : List Char) : List (List Char × List Char) :=
  ((pieces false false header).drop 1).map parameter

/-- The last value of a parameter. -/
def find? (name : List Char) (parameters : List (List Char × List Char)) : Option (List Char) :=
  (parameters.reverse.find? fun entry => entry.1 = name).map Prod.snd

/-- Does a name start with a drive or with a network share? -/
def isForeignPath : List Char → Bool
  | '\\' :: '\\' :: _ => true
  | _ :: ':' :: '\\' :: _ => true
  | _ => false

/-- Of a path with a drive or a share only the last part counts. -/
def localName (name : List Char) : List Char :=
  if isForeignPath name then FileName.behindLast '\\' name else name

end Extraction.Service.Disposition
