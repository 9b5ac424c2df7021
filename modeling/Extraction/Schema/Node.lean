/-!
Schema trees. An object node names its fields in order, an array node has one template for all
elements, and a scalar node has a base type and possibly a list of literals.

Trees that were not compiled may be malformed: a scalar may name a type that does not exist, and
something that is no node may stand in a node's place.
-/

namespace Extraction.Schema

inductive BaseType where
  | string
  | number
  | boolean
  | date
  | any
  | unknown (name : String)
deriving DecidableEq, Repr, Inhabited

namespace BaseType

/-- The name of a type; one that does not exist has none. -/
def name? : BaseType → Option String
  | .string => some "string"
  | .number => some "number"
  | .boolean => some "boolean"
  | .date => some "date"
  | .any => some "any"
  | .unknown _ => none

end BaseType

structure Scalar where
  base : BaseType
  nullable : Bool
  /-- If given, the value must be one of these, whatever the base type says. -/
  literals : Option (List String)
deriving DecidableEq, Repr, Inhabited

namespace Scalar

def any : Scalar := ⟨.any, false, none⟩

def quotedLiterals (literals : List String) : String :=
  String.intercalate " | " (literals.map fun l => "'" ++ l ++ "'")

/-- What messages call the expected value. -/
def label? (s : Scalar) : Option String :=
  match s.literals with
  | some literals => some (quotedLiterals literals)
  | none => s.base.name?

end Scalar

inductive Node where
  | scalar (s : Scalar)
  | array (item : Node)
  | object (fields : List (String × Node))
  /-- Something of another kind in a node's place. -/
  | foreign (kind : String)
deriving Repr, Inhabited

namespace Node

def any : Node := .scalar .any

mutual

/-- How deep containers are nested in a tree. -/
def depth : Node → Nat
  | .array item => depth item + 1
  | .object fields => fieldsDepth fields + 1
  | _ => 0

def fieldsDepth : List (String × Node) → Nat
  | [] => 0
  | (_, node) :: rest => max (depth node) (fieldsDepth rest)

end

mutual

/-- A tree in which every node is a node and every type exists. -/
def WellFormed : Node → Prop
  | .scalar s => s.base.name?.isSome
  | .array item => WellFormed item
  | .object fields => FieldsWellFormed fields
  | .foreign _ => False

def FieldsWellFormed : List (String × Node) → Prop
  | [] => True
  | (_, node) :: rest => WellFormed node ∧ FieldsWellFormed rest

end

end Node

end Extraction.Schema
