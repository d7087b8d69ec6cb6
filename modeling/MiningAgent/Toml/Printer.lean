import MiningAgent.Decimal
import MiningAgent.Toml.Text

/-!
# Writing TOML

A string is written between double quotes on one line.  Quotes and backslashes are
escaped by a backslash, and what is not printable by its code point.
-/

namespace MiningAgent.Toml

def escapeChar (char : Char) : List Char :=
  if char = '"' ∨ char = '\\' then ['\\', char]
  else if isPrintable char then [char]
  else '\\' :: 'u' :: Decimal.padded 16 4 char.toNat

/-- The text behind the opening quote, the closing one included. -/
def quoteRest (text : List Char) : List Char :=
  text.flatMap escapeChar ++ ['"']

def quote (text : List Char) : List Char :=
  '"' :: quoteRest text

/-- A key and a value on a line of their own. -/
def pairLine (key value : List Char) : List Char :=
  key ++ [' ', '=', ' '] ++ value ++ ['\n']

end MiningAgent.Toml
