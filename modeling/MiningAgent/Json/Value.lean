import MiningAgent.Json.Magnitude

/-!
# JSON values

A value keeps what its text says: the members of an object in their order and with
repetitions, the digits of a number, and the escaped code units of a string.  What
a reader makes of them is decided where the value is used.
-/

namespace MiningAgent

namespace Json

/-- One part of a string: a character written as itself or by a short escape, or a
UTF-16 code unit written by its four hexadecimal digits. -/
inductive Part
  | char (char : Char)
  | codeUnit (code : Nat)
deriving DecidableEq, Repr

def isHighSurrogate (code : Nat) : Bool :=
  0xD800 ≤ code && code ≤ 0xDBFF

def isLowSurrogate (code : Nat) : Bool :=
  0xDC00 ≤ code && code ≤ 0xDFFF

/-- The character of a surrogate pair. -/
def pairedChar (high low : Nat) : Char :=
  Char.ofNat ((high - 0xD800) * 0x400 + (low - 0xDC00) + 0x10000)

/-- The text that the parts spell, unless half of a surrogate pair is left over. -/
def joinParts : List Part → Option (List Char)
  | [] => some []
  | .char char :: rest => (joinParts rest).map (char :: ·)
  | .codeUnit high :: .codeUnit low :: rest =>
      if isHighSurrogate high then
        if isLowSurrogate low then (joinParts rest).map (pairedChar high low :: ·) else none
      else if isLowSurrogate high then none
      else (joinParts (.codeUnit low :: rest)).map (Char.ofNat high :: ·)
  | .codeUnit code :: rest =>
      if isHighSurrogate code || isLowSurrogate code then none
      else (joinParts rest).map (Char.ofNat code :: ·)

end Json

inductive Json
  | null
  | bool (value : Bool)
  | number (numeral : Text.Numeral)
  | text (parts : List Json.Part)
  | array (items : List Json)
  | object (members : List (List Json.Part × Json))

namespace Json

def ofNat (number : Nat) : Json := .number (.ofNat number)

def ofString (string : String) : Json := .text (string.toList.map .char)

/-- An object with the given names. -/
def ofMembers (members : List (String × Json)) : Json :=
  .object (members.map fun (name, value) => (name.toList.map .char, value))

mutual

/-- How deep arrays and objects are nested in a value. -/
def depth : Json → Nat
  | .array items => depthOfItems items + 1
  | .object members => depthOfMembers members + 1
  | _ => 0

def depthOfItems : List Json → Nat
  | [] => 0
  | item :: rest => max item.depth (depthOfItems rest)

def depthOfMembers : List (List Part × Json) → Nat
  | [] => 0
  | (_, value) :: rest => max value.depth (depthOfMembers rest)

end

mutual

/-- Whether every string in a value, names included, is text and every number has a
finite magnitude. -/
def isSound : Json → Bool
  | .number numeral => (Magnitude.ofNumeral numeral).isFinite
  | .text parts => (joinParts parts).isSome
  | .array items => itemsAreSound items
  | .object members => membersAreSound members
  | _ => true

def itemsAreSound : List Json → Bool
  | [] => true
  | item :: rest => item.isSound && itemsAreSound rest

def membersAreSound : List (List Part × Json) → Bool
  | [] => true
  | (name, value) :: rest =>
      (joinParts name).isSome && value.isSound && membersAreSound rest

end

end Json

end MiningAgent
