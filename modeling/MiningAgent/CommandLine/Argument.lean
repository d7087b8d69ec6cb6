/-!
# Arguments

An argument is a flag by its long or short name, with or without a value attached;
or two hyphens, behind which nothing is a flag; or plain text.
-/

namespace MiningAgent.CommandLine

inductive Argument
  | escape
  | long (name : List Char) (value : Option (List Char))
  | short (letter : Char) (value : Option (List Char))
  | plain (text : List Char)
deriving DecidableEq, Repr

namespace Argument

def valueBehind? : List Char → Option (List Char)
  | '=' :: value => some value
  | _ => none

/-- What follows the letter of a short flag: its value, with or without an equals
sign in front. -/
def attached? (text : List Char) : Option (List Char) :=
  if text = [] then none else some ((valueBehind? text).getD text)

def ofText : List Char → Argument
  | ['-', '-'] => .escape
  | '-' :: '-' :: rest =>
      .long (rest.takeWhile (· ≠ '=')) (valueBehind? (rest.dropWhile (· ≠ '=')))
  | '-' :: letter :: rest => .short letter (attached? rest)
  | text => .plain text

end Argument

end MiningAgent.CommandLine
