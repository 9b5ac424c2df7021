import Extraction.Service.Address

/-!
What the service has on offer, and the paths under which it is found. Slashes at the end of a path
are ignored unless they belong to it.
-/

namespace Extraction.Service

inductive Resource where
  | health
  | process
  | schemas
  | schema (name : String)
  /-- A page on the service for readers. -/
  | page
  /-- The description of the service for programs. -/
  | description
deriving DecidableEq, Repr

namespace Resource

/-- The fixed paths. -/
def fixed : List (List Char × Resource) := [
  ("/health".toList, health),
  ("/document/process".toList, process),
  ("/file-schemas".toList, schemas),
  ("/docs".toList, page),
  ("/docs/oauth2-redirect".toList, page),
  ("/redoc".toList, page),
  ("/openapi.json".toList, description)]

/-- The path under which the single schemas are found. -/
def schemaRoot : List Char := "/file-schemas/".toList

/-- A fixed path may end with a line feed. -/
def ofFixedPath? (path : List Char) : Option Resource :=
  (fixed.find? fun entry => path = entry.1 || path = entry.1 ++ ['\n']).map Prod.snd

/-- A name is not empty and holds no slash. -/
def ofSchemaPath? (path : List Char) : Option Resource :=
  match Text.after? schemaRoot path with
  | some name =>
    if name.isEmpty || '/' ∈ name then none else some (.schema (String.ofList name))
  | none => none

def ofPath? (path : List Char) : Option Resource :=
  (ofFixedPath? path).or (ofSchemaPath? path)

def withoutSlashes (path : List Char) : List Char :=
  (path.reverse.dropWhile (· = '/')).reverse

/-- The resource at an address. Where there is none, slashes at the end are dropped, and what
remains, if there is something at it, is an address again; so often at most. -/
def find? : (redirections : Nat) → Address → Option Resource
  | redirections, address =>
    let path := address.decoded
    let shorter := withoutSlashes path
    match ofPath? path, redirections with
    | some resource, _ => some resource
    | none, 0 => none
    | none, redirections + 1 =>
      if path.getLast? = some '/' && (ofPath? shorter).isSome then
        find? redirections (.ofPath shorter)
      else none

/-- So often httpx follows a redirection, which is how Starlette answers a path with a slash too
many. -/
def maxRedirections : Nat := 20

def ofAddress? (address : Address) : Option Resource :=
  find? maxRedirections address

end Resource

end Extraction.Service
