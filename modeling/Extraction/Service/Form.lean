import Extraction.Number.Decimal
import Extraction.Service.Disposition
import Extraction.Text.Utf8

/-!
Forms that are sent in parts. In front of each part stands a header line in which its names appear
in quotes, as they are; so a quote or a line break in a name can change what arrives.

A form is read as Starlette reads it with its multipart parser, of which the limits and the faults
below are.
-/

namespace Extraction.Service

open Text (Octets)

/-- A part of a form as it is sent. -/
structure Part where
  name : String
  /-- A part without the name of a file is a text. -/
  fileName : Option String
  content : Octets
deriving DecidableEq, Repr

/-- A file as it arrives. -/
structure Upload where
  fileName : String
  content : Octets
deriving DecidableEq, Repr

/-- What arrives under a name. -/
inductive FormEntry where
  | text (s : String)
  | file (u : Upload)
deriving DecidableEq, Repr

/-- Why a form is turned down as a whole. -/
inductive FormFault where
  | malformed
  | unnamed
  | tooManyTexts
  | tooManyFiles
  | longText
deriving DecidableEq, Repr

namespace Form

/-- The most texts, and the most files, that Starlette takes in one form. -/
def partLimit : Nat := 1000

/-- The most octets in a text of a form that Starlette takes. -/
def textLimit : Nat := 1048576

/-- The most octets in a line of a header that the multipart parser takes. -/
def lineLimit : Nat := 4224

end Form

/-- What Starlette says of a fault. -/
def FormFault.message : FormFault → String
  | malformed => "Invalid multipart data."
  | unnamed => "The Content-Disposition header field \"name\" must be provided."
  | tooManyTexts =>
    "Too many fields. Maximum number of fields is " ++ Number.natText Form.partLimit ++ "."
  | tooManyFiles =>
    "Too many files. Maximum number of files is " ++ Number.natText Form.partLimit ++ "."
  | longText =>
    "Part exceeded maximum size of " ++ Number.natText (Form.textLimit / 1024) ++ "KB."

namespace Part

def dispositionName : String := "Content-Disposition"

/-- The header line of a part. -/
def heading (p : Part) : String :=
  let file := match p.fileName with
    | some name => "; filename=\"" ++ name ++ "\""
    | none => ""
  dispositionName ++ ": form-data; name=\"" ++ p.name ++ "\"" ++ file

/-- A part as it is sent, one character for each octet. -/
def chars (p : Part) : List Char :=
  Text.latinChars (Text.octets p.heading ++ [13, 10, 13, 10] ++ p.content)

/-! ### Reading -/

/-- May a character stand in the name of a header? -/
def isTokenChar (c : Char) : Bool :=
  c.isAlphanum || "!#$%&'*+-.^_|~".toList.contains c || c = '\x60'

/-- A header: its name, its value and what follows its line break. -/
def readLine (cs : List Char) : Option (List Char × List Char × List Char) :=
  let name := cs.takeWhile isTokenChar
  match cs.drop name.length with
  | ':' :: rest =>
    let line := rest.takeWhile (· ≠ '\r')
    match rest.drop line.length with
    | '\r' :: '\n' :: rest =>
      if name.isEmpty || Form.lineLimit < name.length + 1 + line.length then none
      else some (name, line.dropWhile (· = ' '), rest)
    | _ => none
  | _ => none

/-- The value of the last header line on the disposition of a part, and the content behind the
headers. The fuel is the number of characters. -/
def readHeaders : (fuel : Nat) → (disposition : List Char) → List Char →
    Option (List Char × List Char)
  | _, disposition, '\r' :: '\n' :: content => some (disposition, content)
  | 0, _, _ => none
  | fuel + 1, disposition, cs => do
    let (name, value, rest) ← readLine cs
    let isDisposition := name.map Char.toLower = dispositionName.toList.map Char.toLower
    readHeaders fuel (if isDisposition then value else disposition) rest

/-- The name under which a part arrives, and what it holds. -/
def entry (p : Part) : Except FormFault (String × FormEntry) :=
  match readHeaders p.chars.length [] p.chars with
  | none => .error .malformed
  | some (disposition, content) =>
    let parameters := Disposition.parameters disposition
    let decode := fun cs => Text.lenientText (Text.latinOctets cs)
    match Disposition.find? "name".toList parameters with
    | none => .error .unnamed
    | some name =>
      match Disposition.find? "filename".toList parameters with
      | some file =>
        .ok (decode name,
          .file ⟨decode (Disposition.localName file), Text.latinOctets content⟩)
      | none => .ok (decode name, .text (decode content))

end Part

namespace Form

/-- Reads the parts of a form after some texts and files. The first fault counts. -/
def readParts : (texts files : Nat) → List Part → Except FormFault (List (String × FormEntry))
  | _, _, [] => .ok []
  | texts, files, p :: rest => do
    let (name, entry) ← p.entry
    match entry with
    | .file u =>
      if partLimit ≤ files then .error .tooManyFiles
      else (readParts texts (files + 1) rest).map ((name, .file u) :: ·)
    | .text s =>
      if partLimit ≤ texts then .error .tooManyTexts
      else if textLimit < s.utf8ByteSize then .error .longText
      else (readParts (texts + 1) files rest).map ((name, .text s) :: ·)

/-- What arrives of a form. -/
def entries (parts : List Part) : Except FormFault (List (String × FormEntry)) :=
  readParts 0 0 parts

end Form

end Extraction.Service
