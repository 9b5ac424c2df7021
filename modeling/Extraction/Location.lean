import Extraction.Number.Decimal

/-!
Places inside a value, as sequences of steps from the whole into its parts, and the paths that name
them in messages.
-/

namespace Extraction

/-- A step from a value into one of its parts. -/
inductive Step where
  | field (name : String)
  | index (i : Nat)
deriving DecidableEq, Repr

abbrev Location := List Step

namespace Location

/-- A path grows by a dot and the name, or by the index in brackets; no dot stands at the start. -/
def extendPath (path : String) : Step → String
  | .field name => if path.isEmpty then name else path ++ "." ++ name
  | .index i => path ++ "[" ++ Number.natText i ++ "]"

def rootPath : String := "_root"

/-- The path under which the violations at a location are reported. -/
def path (l : Location) : String :=
  let p := l.foldl extendPath ""
  if p.isEmpty then rootPath else p

end Location

end Extraction
