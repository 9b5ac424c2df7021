import Extraction.Text.Hexadecimal
import Extraction.Text.Split
import Extraction.Text.Utf8

/-!
Addresses of requests. An address may name a scheme and a host, which do not matter, and a query and
a fragment behind the path, which do not matter either. What remains is a path without dot segments.
It is decoded twice, so a percent sign that is itself encoded starts another encoded octet. The
second decoding is that of the client that runs in one process with the service; a server that a
request reaches over the network decodes an address once.

Read is what httpx reads as an address, with its limit on the length, the characters that it refuses
and its treatment of dot segments.
-/

namespace Extraction.Service

open Text (Octets)

/-! ### Percent-encoding -/

/-- The octets that ASCII characters stand for. A percent sign without two hexadecimal digits behind
it stands for itself. -/
def percentOctets : List Char → Octets
  | '%' :: a :: b :: rest =>
    match Text.hexValue? a, Text.hexValue? b with
    | some x, some y => UInt8.ofNat (16 * x + y) :: percentOctets rest
    | _, _ => UInt8.ofNat '%'.toNat :: percentOctets (a :: b :: rest)
  | c :: rest => UInt8.ofNat c.toNat :: percentOctets rest
  | [] => []

def isAscii (c : Char) : Bool :=
  c.toNat < 128

/-- Decodes each run of ASCII characters for itself; the octets in it are read as UTF-8. -/
def percentDecode (cs : List Char) : List Char :=
  (cs.splitBy fun a b => isAscii a == isAscii b).flatMap fun run =>
    if run.all isAscii then Text.readUtf8 none (percentOctets run) else run

/-! ### Paths -/

/-- Takes one more segment of a path. The segments so far are in reverse; the empty one in front of
the first slash is never taken back. -/
def addSegment (done : List (List Char)) (segment : List Char) : List (List Char) :=
  if segment = ['.'] then done
  else if segment = ['.', '.'] then (if done = [[]] then done else done.tail)
  else segment :: done

/-- A path with its dot segments carried out, as httpx does before it sends a request. -/
def withoutDots (path : List Char) : List Char :=
  ['/'].intercalate ((Text.splitChars '/' path).foldl addSegment []).reverse

/-- A path that is still encoded, and free of dot segments as it stands. -/
structure Address where
  path : List Char
deriving DecidableEq, Repr

namespace Address

def ofPath (path : List Char) : Address :=
  ⟨withoutDots path⟩

/-- The path that the service is given. -/
def decoded (a : Address) : List Char :=
  percentDecode (percentDecode a.path)

/-! ### Reading -/

/-- The most characters of an address that httpx takes. -/
def lengthLimit : Nat := 65536

/-- Control characters do not stand in an address that httpx takes. -/
def isAllowed (c : Char) : Bool :=
  32 ≤ c.toNat && c.toNat ≠ 127

def isSchemeChar (c : Char) : Bool :=
  c.isAlphanum || c = '+' || c = '.' || c = '-'

/-- The scheme before the first colon, empty if there is none, and what follows it. -/
def splitScheme (cs : List Char) : List Char × List Char :=
  let scheme := cs.takeWhile isSchemeChar
  match cs.drop scheme.length with
  | ':' :: rest => if (scheme.head?.getD 'a').isAlpha then (scheme, rest) else ([], cs)
  | _ => ([], cs)

def endsAuthority (c : Char) : Bool :=
  c = '/' || c = '?' || c = '#'

/-- What stands between two slashes and the path, empty if there is nothing. -/
def splitAuthority : List Char → List Char × List Char
  | '/' :: '/' :: rest =>
    (rest.takeWhile fun c => !endsAuthority c, rest.dropWhile fun c => !endsAuthority c)
  | cs => ([], cs)

/-- The host and the port in an authority, behind the name of a user. -/
def hostAndPort (authority : List Char) : List Char × List Char :=
  let place := (authority.reverse.takeWhile (· ≠ '@')).reverse
  (place.takeWhile (· ≠ ':'), (place.dropWhile (· ≠ ':')).drop 1)

/-- Reads an address. Without a scheme and a host the path starts at the first character that is not
a slash; without either, two slashes or a colon in front of the path are refused. -/
def ofText? (text : String) : Option Address :=
  let cs := text.toList
  if lengthLimit < cs.length || !cs.all isAllowed then none
  else
    let (scheme, rest) := splitScheme cs
    let (authority, rest) := splitAuthority rest
    let (host, port) := hostAndPort authority
    let path := rest.takeWhile fun c => c ≠ '?' && c ≠ '#'
    let isBare := scheme.isEmpty && authority.all fun c => c = '@' || c = ':'
    if !port.all Char.isDigit then none
    else if isBare && (['/', '/'].isPrefixOf path || path.head? = some ':') then none
    else if scheme.isEmpty || host.isEmpty then some (ofPath ('/' :: path.dropWhile (· = '/')))
    else some (ofPath path)

end Address

end Extraction.Service
