/-!
Letter case, as far as words of ASCII letters need it.
-/

namespace Extraction.Text

/-- Lower case of the ASCII letters. No other character has an ASCII letter as its lower case,
the Kelvin sign apart, so a comparison with a word that has no `k` sees the full mapping. -/
def lower (s : String) : String :=
  String.ofList (s.toList.map Char.toLower)

/-- Upper case, with the characters outside ASCII whose upper case is made of ASCII letters. -/
def upperChar (c : Char) : List Char :=
  match c with
  | 'ß' => ['S', 'S']
  | 'ı' => ['I']
  | 'ſ' => ['S']
  | 'ﬀ' => ['F', 'F']
  | 'ﬁ' => ['F', 'I']
  | 'ﬂ' => ['F', 'L']
  | 'ﬃ' => ['F', 'F', 'I']
  | 'ﬄ' => ['F', 'F', 'L']
  | 'ﬅ' => ['S', 'T']
  | 'ﬆ' => ['S', 'T']
  | _ => [c.toUpper]

def upper (s : String) : String :=
  String.ofList (s.toList.flatMap upperChar)

end Extraction.Text
