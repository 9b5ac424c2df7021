import Extraction.Failure
import Extraction.Json.Reader
import Extraction.Text.Blank

/-!
Replies of the language model. A reply is JSON text, bare or inside one code fence; the names of
numbers without digits are not allowed in it.
-/

namespace Extraction.Reply

def fence : List Char := ['`', '`', '`']

def dropLast (n : Nat) (cs : List Char) : List Char :=
  cs.take (cs.length - n)

/-- The text behind the first line; nothing if there is only one line. -/
def behindFirstLine (cs : List Char) : List Char :=
  (cs.dropWhile (· ≠ '\n')).drop 1

/-- Takes a closing fence away, with the blanks behind it. -/
def withoutClosing (cs : List Char) : List Char :=
  let trimmed := Text.trimRightChars cs
  if fence.isSuffixOf trimmed then dropLast fence.length trimmed else cs

/-- The JSON text of a reply. -/
def body (cs : List Char) : List Char :=
  let trimmed := Text.trimChars cs
  if fence.isPrefixOf trimmed then withoutClosing (behindFirstLine trimmed) else trimmed

/-- Reads a reply. The failure carries the reply as it came. -/
def read (raw : String) : Except Failure Value :=
  match Json.readChars false (body raw.toList) with
  | .ok v => .ok v
  | .error _ => .error (.unreadableReply raw)

end Extraction.Reply
