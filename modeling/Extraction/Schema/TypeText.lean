import Extraction.Schema.Node
import Extraction.Text.Blank
import Extraction.Text.Split

/-!
Type texts, such as `string | null` or `Active | Inactive`. A text is cut at its bars and each part
is trimmed; the part `null` makes the scalar nullable. If a bar has a space on both sides and at
least two other parts remain, these are the literals of an enumeration; otherwise the first of them
names the type.
-/

namespace Extraction.Schema

inductive Token where
  | null
  | type (t : BaseType) (text : String)
  | literal (text : String)
deriving DecidableEq, Repr

namespace Token

def text : Token → String
  | .null => "null"
  | .type _ t => t
  | .literal t => t

/-- The types that a text can name. -/
def typeNamed? (name : String) : Option BaseType :=
  if name = "string" then some .string
  else if name = "number" then some .number
  else if name = "boolean" then some .boolean
  else if name = "date" then some .date
  else none

def ofPart (part : String) : Token :=
  if part = "null" then .null
  else
    match typeNamed? part with
    | some t => .type t part
    | none => .literal part

end Token

def tokens (text : String) : List Token :=
  (Text.splitAt '|' text).map fun part => Token.ofPart (Text.trim part)

/-- Drops every text that occurred before. -/
def withoutRepeats (seen : List String) : List String → List String
  | [] => []
  | t :: rest => if t ∈ seen then withoutRepeats seen rest else t :: withoutRepeats (t :: seen) rest

/-- Does some bar of the text have a space on both sides? -/
def hasSpacedBar (text : String) : Bool :=
  Text.containsChars [' ', '|', ' '] text.toList

def Scalar.ofText (text : String) : Scalar :=
  let nullable := (tokens text).any (· == .null)
  match (tokens text).filter (· != .null) with
  | [] => ⟨.any, nullable, none⟩
  | main :: others =>
    if !others.isEmpty && hasSpacedBar text then
      ⟨.string, nullable, some (withoutRepeats [] ((main :: others).map Token.text))⟩
    else
      match main with
      | .type t _ => ⟨t, nullable, none⟩
      | _ => ⟨.any, nullable, none⟩

end Extraction.Schema
