import MiningAgent.Decimal
import MiningAgent.Json.Value

/-!
# Writing JSON

Two layouts of one value: compact, without any white space, and pretty, one item a
line and two blanks for each level.
-/

namespace MiningAgent.Json

/-- A character of a string.  Quote, backslash and control characters are escaped,
by a short escape where there is one. -/
def escapeChar (char : Char) : List Char :=
  match char with
  | '"' => ['\\', '"']
  | '\\' => ['\\', '\\']
  | '\x08' => ['\\', 'b']
  | '\x0c' => ['\\', 'f']
  | '\n' => ['\\', 'n']
  | '\r' => ['\\', 'r']
  | '\t' => ['\\', 't']
  | other =>
      if other.toNat < 0x20 then '\\' :: 'u' :: Decimal.padded 16 4 other.toNat else [other]

def escapePart : Part → List Char
  | .char char => escapeChar char
  | .codeUnit code => '\\' :: 'u' :: Decimal.padded 16 4 code

def quote (parts : List Part) : List Char :=
  '"' :: (parts.flatMap escapePart ++ ['"'])

def spellNumeral (numeral : Text.Numeral) : List Char :=
  (if numeral.negative then ['-'] else []) ++ numeral.whole ++
    (if numeral.fraction = [] then [] else '.' :: numeral.fraction) ++
    (match numeral.exponent with
     | none => []
     | some (negative, digits) => 'e' :: (if negative then '-' :: digits else digits))

def spellBool (value : Bool) : List Char :=
  (if value then "true" else "false").toList

/-- Items with a comma between any two. -/
def separate (items : List (List Char)) : List Char :=
  (List.intersperse [','] items).flatten

mutual

def compactChars : Json → List Char
  | .null => "null".toList
  | .bool value => spellBool value
  | .number numeral => spellNumeral numeral
  | .text parts => quote parts
  | .array items => '[' :: (separate (compactItems items) ++ [']'])
  | .object members => '\x7b' :: (separate (compactMembers members) ++ ['\x7d'])

def compactItems : List Json → List (List Char)
  | [] => []
  | item :: rest => item.compactChars :: compactItems rest

def compactMembers : List (List Part × Json) → List (List Char)
  | [] => []
  | (name, value) :: rest => (quote name ++ ':' :: value.compactChars) :: compactMembers rest

end

def compact (value : Json) : String :=
  String.ofList value.compactChars

/-- A new line at a level of nesting. -/
def newLine (level : Nat) : List Char :=
  '\n' :: List.replicate (2 * level) ' '

/-- The items of a container between its two marks, one a line. -/
def block (level : Nat) (left right : Char) (items : List (List Char)) : List Char :=
  if items = [] then [left, right]
  else left :: (separate (items.map (newLine (level + 1) ++ ·)) ++ newLine level ++ [right])

mutual

def prettyChars (level : Nat) : Json → List Char
  | .null => "null".toList
  | .bool value => spellBool value
  | .number numeral => spellNumeral numeral
  | .text parts => quote parts
  | .array items => block level '[' ']' (prettyItems (level + 1) items)
  | .object members => block level '\x7b' '\x7d' (prettyMembers (level + 1) members)

def prettyItems (level : Nat) : List Json → List (List Char)
  | [] => []
  | item :: rest => item.prettyChars level :: prettyItems level rest

def prettyMembers (level : Nat) : List (List Part × Json) → List (List Char)
  | [] => []
  | (name, value) :: rest =>
      (quote name ++ ':' :: ' ' :: value.prettyChars level) :: prettyMembers level rest

end

def pretty (value : Json) : String :=
  String.ofList (value.prettyChars 0)

end MiningAgent.Json
