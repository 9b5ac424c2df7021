import Extraction.Text.Case

/-!
The level of the log. Levels are named in any letter case, and an unknown name means the usual
level.
-/

namespace Extraction.Logging

/-- Names that look like levels and stand for something else. -/
inductive Mistaken where
  | text
  | table
deriving DecidableEq, Repr

def defaultLevel : Nat := 20

def warning : Nat := 30

/-- The level that a name stands for. -/
def level (name : String) : Except Mistaken Nat :=
  match Text.upper name with
  | "NOTSET" => .ok 0
  | "DEBUG" => .ok 10
  | "INFO" => .ok 20
  | "WARN" | "WARNING" => .ok warning
  | "ERROR" => .ok 40
  | "CRITICAL" | "FATAL" => .ok 50
  | "BASIC_FORMAT" => .error .text
  | "_STYLES" => .error .table
  | _ => .ok defaultLevel

/-- The level of the log and the levels of the outputs attached to it. -/
structure State where
  root : Nat := warning
  outputs : List Nat := []
deriving DecidableEq, Repr

/-- Chatty parts of the program log from this level on, whatever the level of the log. -/
def quietLevel : Nat := warning

/-- Sets the log up: one output replaces all others. A mistaken name changes nothing. -/
def setUp (name : String) (s : State) : Except Mistaken Unit × State :=
  match level name with
  | .ok n => (.ok (), ⟨n, [n]⟩)
  | .error e => (.error e, s)

end Extraction.Logging
