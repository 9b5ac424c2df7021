import Extraction.Text.Case

/-!
File names: their extensions, the kinds of document these stand for, and the media types that are
declared for images.

A media type is found by reading the name as an address, which may start with a scheme, and in a
`data:` address the type is written out.
-/

namespace Extraction

namespace FileName

/-- What stands behind the last `sep`; everything if there is none. -/
def behindLast (sep : Char) (cs : List Char) : List Char :=
  (cs.reverse.takeWhile (· ≠ sep)).reverse

/-- The extension of a name, with its dot. The dots at the start of the last path segment belong to
the name. -/
def extensionChars (cs : List Char) : List Char :=
  let rest := (behindLast '/' cs).dropWhile (· = '.')
  if '.' ∈ rest then '.' :: behindLast '.' rest else []

/-- The extension of a name, in lower case. -/
def extension (cs : List Char) : String :=
  Text.lower (String.ofList (extensionChars cs))

/-- Takes a scheme and its colon off an address. A scheme has no slash and is not empty. -/
def splitScheme (cs : List Char) : String × List Char :=
  let name := cs.takeWhile fun c => c ≠ '/' && c ≠ ':'
  match cs.drop name.length with
  | ':' :: rest => if name.isEmpty then ("", cs) else (Text.lower (String.ofList name), rest)
  | _ => ("", cs)

/-- The media type in a `data:` address, read behind the scheme: what stands before the first
semicolon of the part before the comma. One that is no type and subtype stands for plain text. -/
def dataType? (cs : List Char) : Option String :=
  if ',' ∈ cs then
    let type := (cs.takeWhile (· ≠ ',')).takeWhile (· ≠ ';')
    some (if '=' ∈ type || '/' ∉ type then "text/plain" else String.ofList type)
  else none

/-- The media types of image extensions. -/
def imageType? (extension : String) : Option String :=
  if extension = ".png" then some "image/png"
  else if extension = ".jpg" || extension = ".jpeg" then some "image/jpeg"
  else none

/-- The media type of a name, if it has one. -/
def mediaType? (name : String) : Option String :=
  let (scheme, rest) := splitScheme name.toList
  if scheme = "data" then dataType? rest else imageType? (extension rest)

/-- The media type that is declared when a file is sent. -/
def mediaType (name : String) : String :=
  (mediaType? name).getD "application/octet-stream"

end FileName

inductive FileKind where
  | pdf
  | image
deriving DecidableEq, Repr

namespace FileKind

def name : FileKind → String
  | pdf => "pdf"
  | image => "image"

/-- The kind of document that a file name stands for, by its extension alone. -/
def ofName? (fileName : String) : Option FileKind :=
  let ext := FileName.extension fileName.toList
  if ext = ".pdf" then some .pdf
  else if ext = ".png" || ext = ".jpg" || ext = ".jpeg" then some .image
  else none

end FileKind

end Extraction
