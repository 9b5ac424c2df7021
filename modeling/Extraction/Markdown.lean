import Extraction.Json.Printer
import Extraction.Value.Display

/-!
Markdown outlines. Every field and every element is one bullet; the entries of a container follow
its bullet, one level deeper. At the cap, containers are written inline as JSON instead; the value
as a whole never is.
-/

namespace Extraction

/-- One bullet of an outline. -/
structure Bullet where
  level : Nat
  text : String
deriving DecidableEq, Repr

namespace Bullet

/-- How far a level is indented. -/
def indent : Nat := 2

def chars (b : Bullet) : List Char :=
  List.replicate (indent * b.level) ' ' ++ '-' :: ' ' :: b.text.toList

/-- What stands for an entry in its container: the name of a field, or the number of an element,
counted from one. -/
inductive Label where
  | field (name : String)
  | element (number : Nat)
deriving DecidableEq, Repr

/-- The bullet text of an entry whose own entries follow. -/
def Label.heading : Label → String
  | field name => "**" ++ name ++ "**:"
  | element number => "**#" ++ Number.natText number ++ "**"

/-- The bullet text of an entry with its content; the number of an element is not shown. -/
def Label.withContent (content : String) : Label → String
  | field name => "**" ++ name ++ "**: " ++ content
  | element _ => content

end Bullet

namespace Markdown

open Bullet (Label)

/-- The content of an empty container. -/
def emptyText : String := "_empty_"

/-- A value that is not a container. -/
def scalarText? : Value → Option String
  | .null => some "N/A"
  | .bool b => some (if b then "true" else "false")
  | .dateTime t => some t.isoText
  | v => v.display?

/-- A container as JSON between backticks. -/
def inlineText? (v : Value) : Option String :=
  (Json.print? Json.compact v).map fun json => "`" ++ json ++ "`"

/-- Is the level beyond the cap? -/
def atCap (cap : Option Int) (level : Nat) : Bool :=
  cap.any fun limit => decide (limit ≤ (level : Int))

mutual

/-- The bullets of one entry at a level; none if an integer in it is too long to be written. -/
def entryBullets (cap : Option Int) (level : Nat) (label : Label) : Value → Option (List Bullet)
  | .array [] | .object [] => some [⟨level, label.withContent emptyText⟩]
  | .array (v :: rest) =>
    if atCap cap (level + 1) then do
      let json ← inlineText? (.array (v :: rest))
      some [⟨level, label.withContent json⟩]
    else do
      let first ← entryBullets cap (level + 1) (.element 1) v
      let others ← itemBullets cap (level + 1) 2 rest
      some (⟨level, label.heading⟩ :: first ++ others)
  | .object ((name, v) :: rest) =>
    if atCap cap (level + 1) then do
      let json ← inlineText? (.object ((name, v) :: rest))
      some [⟨level, label.withContent json⟩]
    else do
      let first ← entryBullets cap (level + 1) (.field name) v
      let others ← fieldBullets cap (level + 1) rest
      some (⟨level, label.heading⟩ :: first ++ others)
  | v => do
    let text ← scalarText? v
    some [⟨level, label.withContent text⟩]

/-- The bullets of the elements of an array, from a number on. -/
def itemBullets (cap : Option Int) (level : Nat) : (number : Nat) → List Value →
    Option (List Bullet)
  | _, [] => some []
  | number, v :: rest => do
    let first ← entryBullets cap level (.element number) v
    let others ← itemBullets cap level (number + 1) rest
    some (first ++ others)

/-- The bullets of the fields of an object. -/
def fieldBullets (cap : Option Int) (level : Nat) : List (String × Value) → Option (List Bullet)
  | [] => some []
  | (name, v) :: rest => do
    let first ← entryBullets cap level (.field name) v
    let others ← fieldBullets cap level rest
    some (first ++ others)

end

/-- The outline of a whole value. -/
def bullets? (cap : Option Int) : Value → Option (List Bullet)
  | .array [] | .object [] => some [⟨0, emptyText⟩]
  | .array items => itemBullets cap 0 1 items
  | .object fields => fieldBullets cap 0 fields
  | v => do
    let text ← scalarText? v
    some [⟨0, text⟩]

mutual

/-- How deep the containers are nested, from the whole value on, of which one is written inline in
an entry at a level; zero if none is. -/
def entryReach (cap : Option Int) (level : Nat) : Value → Nat
  | .array items =>
    if atCap cap (level + 1) then
      if items.isEmpty then 0 else level + 1 + (Value.array items).nesting
    else itemReach cap (level + 1) items
  | .object fields =>
    if atCap cap (level + 1) then
      if fields.isEmpty then 0 else level + 1 + (Value.object fields).nesting
    else fieldReach cap (level + 1) fields
  | _ => 0

def itemReach (cap : Option Int) (level : Nat) : List Value → Nat
  | [] => 0
  | v :: rest => max (entryReach cap level v) (itemReach cap level rest)

def fieldReach (cap : Option Int) (level : Nat) : List (String × Value) → Nat
  | [] => 0
  | (_, v) :: rest => max (entryReach cap level v) (fieldReach cap level rest)

end

/-- How deep what is written inline reaches into a value. -/
def inlineReach (cap : Option Int) : Value → Nat
  | .array items => itemReach cap 0 items
  | .object fields => fieldReach cap 0 fields
  | _ => 0

/-- Lines joined by line feeds. -/
def joinLines : List (List Char) → List Char
  | [] => []
  | [line] => line
  | line :: rest => line ++ '\n' :: joinLines rest

/-- The Markdown text of a value; none if an integer in it is too long to be written. -/
def render? (cap : Option Int) (v : Value) : Option String :=
  (bullets? cap v).map fun bs => String.ofList (joinLines (bs.map Bullet.chars))

end Markdown

end Extraction
