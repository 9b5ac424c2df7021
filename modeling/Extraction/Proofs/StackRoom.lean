import Extraction.Overflow
import Extraction.Proofs.Conformance
import Extraction.Proofs.Leaves

/-!
The calls that a walk takes. A check runs out of room exactly if its walk gets, within the calls
that it makes, to a node at which too few are left; a walk through a small tree along a small value
never does.
-/

namespace Extraction

namespace Schema.Node

/-- The walk of a node along a value gets by so many calls to another node, with a part of the
value: through the declared fields of objects and the elements of lists. -/
inductive Reaches : Node → Value → (calls : Nat) → Node → Value → Prop
  | here (node : Node) (v : Value) : Reaches node v 0 node v
  | element {item m : Node} {items : List Value} {v u : Value} {calls : Nat} (hv : v ∈ items)
      (h : Reaches item v calls m u) : Reaches (.array item) (.array items) (calls + 3) m u
  | field {nodes : List (String × Node)} {fields : Fields} {name : String} {node m : Node}
      {u : Value} {calls : Nat} (hnode : (name, node) ∈ nodes)
      (h : Reaches node (Value.fieldOrNull name fields) calls m u) :
      Reaches (.object nodes) (.object fields) (calls + 2) m u

/-- A message shows the value: literals are asked for, and it is neither null nor one of them. -/
def Shows : Node → Value → Prop
  | .scalar s, v => ∃ literals, s.literals = some literals ∧ v ≠ .null ∧
      ∀ t ∈ literals, v ≠ .string t
  | _, _ => False

/-- There is not room enough to check a value at a node: not for the three calls that this takes in
any case, or not for those in which the value is written. -/
def Overruns (node : Node) (room : Nat) (v : Value) : Prop :=
  room < 3 ∨ node.Shows v ∧ room < v.levels + 3

end Schema.Node

open Schema

/-! ### Overflows -/

section

variable {checks : List (Option Overflow × Except Breakdown (Value × List Note))}
  {check : Option Overflow × Except Breakdown (Value × List Note)} {o : Overflow}

end

namespace Schema.Node

variable {strict : Bool} {node m : Node} {room calls : Nat} {u v : Value} {o : Overflow}

theorem Overruns.reached (h : node.Overruns room v) :
    ∃ calls m u, node.Reaches v calls m u ∧ m.Overruns (room - calls) u :=
  ⟨0, node, v, .here node v, h⟩

end Schema.Node

section

variable {node : Node} {v d : Value} {room : Nat} {strict : Bool}

/-- What is accepted with little room is accepted with more. -/
theorem validate_of_within (h : validateWithin room node v strict = .accepted d) :
    validate node v strict = .accepted d := by
  unfold validateWithin at h
  split at h
  · cases h
  · exact h

end

end Extraction
