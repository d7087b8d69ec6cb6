/-!
# TOML values

A document is a table of values.  A table remembers how it came to be, because this
decides which later statements may still add to it.
-/

namespace MiningAgent.Toml

abbrev Key := List Char

/-- How a table came to be: written in braces, opened by a header of its own, or implied by the
header of a table below it or by a dotted key.  One in braces is complete as it stands. -/
inductive Origin
  | inline
  | header
  | implied
  | dotted
deriving DecidableEq, Repr

inductive Value
  | boolean (value : Bool)
  | integer (value : Int)
  | float (text : List Char)
  /-- A date, a time of day or both, as written. -/
  | moment (text : List Char)
  | text (text : List Char)
  | array (items : List Value)
  | table (origin : Origin) (entries : List (Key × Value))
  /-- An array of tables with at least one row; headers add to the last one. -/
  | rows (earlier : List (List (Key × Value))) (last : List (Key × Value))

abbrev Entries := List (Key × Value)

namespace Entries

def get? (entries : Entries) (key : Key) : Option Value :=
  match entries with
  | [] => none
  | (other, value) :: rest => if other = key then some value else get? rest key

/-- Replaces the value of a key, or adds the key behind all others. -/
def set (entries : Entries) (key : Key) (value : Value) : Entries :=
  match entries with
  | [] => [(key, value)]
  | (other, old) :: rest =>
      if other = key then (key, value) :: rest else (other, old) :: set rest key value

end Entries

end MiningAgent.Toml
