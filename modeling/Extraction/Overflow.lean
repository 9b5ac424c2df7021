import Extraction.Value.Kept
import Extraction.Verdict

/-!
Checks on a bounded stack. A check makes calls inside calls, and there is room for so many of them.
If a walk has to go deeper it ends there, and the verdict reports that as it reports a breakdown.

Counted are the calls of the walk itself and of writing a value in a message. Calls that return at
once are not: how many of those fit in at the very edge of the stack depends on the interpreter.
-/

namespace Extraction

open Schema

/-- What there was no more room for. -/
inductive Overflow where
  | walk
  | writing
deriving DecidableEq, Repr

/-- The interpreter also names the kind of call that it could not make. -/
def Overflow.message : Overflow → String
  | walk => "maximum recursion depth exceeded"
  | writing => "maximum recursion depth exceeded while getting the repr of an object"

namespace Schema

/-- Does the complaint about a value show the value itself? -/
def Scalar.shows (s : Scalar) (v : Value) : Bool :=
  match s.literals, v with
  | none, _ => false
  | some _, .null => false
  | some literals, .string t => t ∉ literals
  | some _, _ => true

/-- The calls, one inside the other, in which a node itself is checked; those for its parts come on
top. A value that is shown takes one more call for each of its levels. -/
def Node.ownCalls : Node → Value → Nat
  | .scalar s, v => 3 + if s.shows v then v.levels else 0
  | _, _ => 3

/-- The calls around the check of an element. -/
def callsToElement : Nat := 3

/-- The calls around the check of a field. -/
def callsToField : Nat := 2

/-- The first overflow in the checks of some parts, each given by where it runs out of room and by
what it gives otherwise. Where one breaks off the rest are not made. -/
def firstOverflow? : List (Option Overflow × Except Breakdown (Value × List Note)) → Option Overflow
  | [] => none
  | (some o, _) :: _ => some o
  | (none, .error _) :: _ => none
  | (none, .ok _) :: rest => firstOverflow? rest

mutual

/-- Where a check runs out of room, if it does so before it is done or breaks off. -/
def Node.overflow? (strict : Bool) : Node → (room : Nat) → Value → Option Overflow
  | .scalar s, room, v =>
    if room < 3 then some .walk
    else if room < (Node.scalar s).ownCalls v then some .writing
    else none
  | .array item, room, v =>
    if room < 3 then some .walk
    else
      match v with
      | .array items => firstOverflow? (items.map fun w =>
          (Node.overflow? strict item (room - callsToElement) w, item.visit strict w))
      | _ => none
  | .object nodes, room, v =>
    if room < 3 then some .walk
    else
      match v with
      | .object fields => firstOverflow? (Node.fieldChecks strict nodes (room - callsToField) fields)
      | _ => none
  | .foreign _, room, _ => if room < 3 then some .walk else none

/-- The checks of the declared fields of an object. -/
def Node.fieldChecks (strict : Bool) : List (String × Node) → (room : Nat) →
    List (String × Value) → List (Option Overflow × Except Breakdown (Value × List Note))
  | [], _, _ => []
  | (name, node) :: rest, room, fields =>
    let v := Value.fieldOrNull name fields
    (Node.overflow? strict node room v, node.visit strict v) ::
      Node.fieldChecks strict rest room fields

end

end Schema

/-- The verdict on a value if there is room for so many calls, one inside the other. -/
def validateWithin (room : Nat) (node : Node) (v : Value) (strict : Bool) : Verdict :=
  match node.overflow? strict room v with
  | some o => .rejected [(schemaPath, [s!"Internal error: {o.message}"])]
  | none => validate node v strict

end Extraction
