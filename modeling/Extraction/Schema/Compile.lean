import Extraction.Schema.TypeText
import Extraction.Value

/-!
From a definition, which is a JSON value, to a schema tree. An object becomes an object node, a list
an array node with its first element as template, a text a scalar, and anything else a scalar of
any type. The nesting of containers can be capped.
-/

namespace Extraction.Schema

/-- The depth cap that a definition exceeds. -/
structure TooDeep where
  cap : Int
deriving DecidableEq, Repr

/-- Is a container at this depth within the cap? -/
def checkDepth (cap : Option Int) (depth : Nat) : Except TooDeep Unit :=
  match cap with
  | some limit => if limit ≤ depth then .error ⟨limit⟩ else .ok ()
  | none => .ok ()

mutual

def compileAt (cap : Option Int) (depth : Nat) : Value → Except TooDeep Node
  | .object fields => do
    checkDepth cap depth
    let nodes ← compileFields cap (depth + 1) fields
    .ok (.object nodes)
  | .array [] => do
    checkDepth cap depth
    .ok (.array .any)
  | .array (first :: _) => do
    checkDepth cap depth
    let item ← compileAt cap (depth + 1) first
    .ok (.array item)
  | .string text => .ok (.scalar (.ofText text))
  | _ => .ok .any

def compileFields (cap : Option Int) (depth : Nat) :
    List (String × Value) → Except TooDeep (List (String × Node))
  | [] => .ok []
  | (name, v) :: rest => do
    let node ← compileAt cap depth v
    let nodes ← compileFields cap depth rest
    .ok ((name, node) :: nodes)

end

/-- Compiles a definition under an optional cap on the nesting of containers. -/
def compile (cap : Option Int) (definition : Value) : Except TooDeep Node :=
  compileAt cap 0 definition

mutual

/-- How deep containers are nested in a definition; of a list only the first element counts. -/
def depth : Value → Nat
  | .object fields => fieldsDepth fields + 1
  | .array [] => 1
  | .array (first :: _) => depth first + 1
  | _ => 0

def fieldsDepth : List (String × Value) → Nat
  | [] => 0
  | (_, v) :: rest => max (depth v) (fieldsDepth rest)

end

end Extraction.Schema
