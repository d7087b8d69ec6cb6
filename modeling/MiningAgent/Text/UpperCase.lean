/-!
# Upper case

Upper-casing as far as it can produce ASCII text.
-/

namespace MiningAgent.Text

/-- The upper case of a character whose upper case is ASCII: the letters, the
dotless i, the long s, the sharp s and the Latin ligatures.  Any other character
stands for itself, and its true upper case also holds a character beyond ASCII. -/
def upperCase (char : Char) : List Char :=
  match char with
  | 'ı' => ['I']
  | 'ſ' => ['S']
  | 'ß' => ['S', 'S']
  | 'ﬀ' => ['F', 'F']
  | 'ﬁ' => ['F', 'I']
  | 'ﬂ' => ['F', 'L']
  | 'ﬃ' => ['F', 'F', 'I']
  | 'ﬄ' => ['F', 'F', 'L']
  | 'ﬅ' => ['S', 'T']
  | 'ﬆ' => ['S', 'T']
  | other => [other.toUpper]

def toUpperCase (text : List Char) : List Char :=
  text.flatMap upperCase

end MiningAgent.Text
