import Extraction.Json.Numeral
import Extraction.Json.Text
import Extraction.Text.Split

/-!
Reading JSON text. The grammar is the standard one; the three constants `NaN`, `Infinity` and
`-Infinity` are accepted too unless the caller refuses them. A repeated field name keeps its first
place and its last value.
-/

namespace Extraction.Json

/-- Containers may be nested this deep. The interpreter has no limit for them, but a call is made
for each, and it allows a thousand calls inside one another. So the number stands for what is left
of these where a reply is read, and depends on the calls around the reader. -/
def nestingLimit : Nat := 990

/-- The words that stand for a value. -/
def words : List (List Char × Value) := [
  ("null".toList, .null),
  ("true".toList, .bool true),
  ("false".toList, .bool false)]

/-- The words for the numbers that have no digits. -/
def constants : List (List Char × Value) := [
  ("NaN".toList, .float .nan),
  ("Infinity".toList, .float (.infinite false)),
  ("-Infinity".toList, .float (.infinite true))]

def matchWord (table : List (List Char × Value)) (cs : List Char) : Option (Value × List Char) :=
  table.findSome? fun (word, v) => (Text.after? word cs).map fun rest => (v, rest)

/-- A value that is neither a string nor a container. -/
def readAtom (allowConstants : Bool) (cs : List Char) :
    Except Fault (Value × List Char) :=
  match matchWord words cs with
  | some found => .ok found
  | none =>
    match matchWord constants cs with
    | some found => if allowConstants then .ok found else .error .constant
    | none => readNumber cs

/-- The elements of an array, separated by commas, and the closing bracket. -/
def readItems (value : List Char → Except Fault (Value × List Char)) :
    (fuel : Nat) → List Char → Except Fault (List Value × List Char)
  | 0, cs => .error (.malformed cs.length)
  | fuel + 1, cs => do
    let (v, rest) ← value cs
    match skipSpace rest with
    | ']' :: rest => .ok ([v], rest)
    | ',' :: rest => do
      let (vs, rest) ← readItems value fuel (skipSpace rest)
      .ok (v :: vs, rest)
    | rest => .error (.malformed rest.length)

/-- The fields of an object, separated by commas, and the closing brace. -/
def readFields (value : List Char → Except Fault (Value × List Char)) :
    (fuel : Nat) → List Char → Except Fault (List (String × Value) × List Char)
  | 0, cs => .error (.malformed cs.length)
  | fuel + 1, '"' :: cs => do
    let (name, rest) ← readText cs
    match skipSpace rest with
    | ':' :: rest => do
      let (v, rest) ← value (skipSpace rest)
      match skipSpace rest with
      | '\x7d' :: rest => .ok ([(name, v)], rest)
      | ',' :: rest => do
        let (fields, rest) ← readFields value fuel (skipSpace rest)
        .ok ((name, v) :: fields, rest)
      | rest => .error (.malformed rest.length)
    | rest => .error (.malformed rest.length)
  | _ + 1, cs => .error (.malformed cs.length)

/-- A value at the start of a text, with containers nested at most `depth` deep. -/
def readValue (allowConstants : Bool) :
    (depth : Nat) → List Char → Except Fault (Value × List Char)
  | _, '"' :: cs => (readText cs).map fun (s, rest) => (.string s, rest)
  | 0, '[' :: _ => .error .nesting
  | 0, '\x7b' :: _ => .error .nesting
  | depth + 1, '[' :: cs =>
    match skipSpace cs with
    | ']' :: rest => .ok (.array [], rest)
    | cs => (readItems (readValue allowConstants depth) cs.length cs).map
        fun (items, rest) => (.array items, rest)
  | depth + 1, '\x7b' :: cs =>
    match skipSpace cs with
    | '\x7d' :: rest => .ok (.object [], rest)
    | cs => (readFields (readValue allowConstants depth) (cs.length + 1) cs).map
        fun (fields, rest) => (.object (Value.fieldsOfPairs fields), rest)
  | _, cs => readAtom allowConstants cs

/-- A text that is one value with JSON space around it. -/
def readChars (allowConstants : Bool) (cs : List Char) : Except Fault Value :=
  if cs.head? == some '\uFEFF' then .error (.malformed cs.length)
  else
    match readValue allowConstants nestingLimit (skipSpace cs) with
    | .error fault => .error fault
    | .ok (v, rest) =>
      match skipSpace rest with
      | [] => .ok v
      | rest => .error (.malformed rest.length)

def read (allowConstants : Bool) (text : String) : Except Fault Value :=
  readChars allowConstants text.toList

end Extraction.Json
