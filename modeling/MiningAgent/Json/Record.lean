import MiningAgent.Json.Value

/-!
# Records in JSON

A record is an object that holds each known name at most once, among any others;
or the array of its fields in declared order.
-/

namespace MiningAgent.Json

/-- The members with their names as text. -/
def named? (members : List (List Part × Json)) : Option (List (List Char × Json)) :=
  members.mapM fun (name, value) => (joinParts name).map fun text => (text, value)

/-- The value of a name that occurs at most once. -/
def member? (members : List (List Char × Json)) (name : String) : Option (Option Json) :=
  match members.filter fun member => member.1 = name.toList with
  | [] => some none
  | [(_, value)] => some (some value)
  | _ => none

/-- The values of the names in an object, those that are absent left out. -/
def objectFields? (names : List String) (members : List (List Part × Json)) :
    Option (List (Option Json)) :=
  (named? members).bind fun members => names.mapM (member? members)

/-- The values of a record.  As an array it has at least `least` items, and the
fields behind the last one are absent. -/
def fields? (names : List String) (least : Nat) : Json → Option (List (Option Json))
  | .object members => objectFields? names members
  | .array items =>
      if least ≤ items.length ∧ items.length ≤ names.length then
        some (items.map some ++ List.replicate (names.length - items.length) none)
      else none
  | _ => none

def natural? (limit : Nat) : Json → Option Nat
  | .number numeral => numeral.natural?.filter (· ≤ limit)
  | _ => none

def long? (value : Json) : Option UInt64 :=
  (value.natural? 18446744073709551615).map UInt64.ofNat

def word? (value : Json) : Option UInt32 :=
  (value.natural? 4294967295).map UInt32.ofNat

def bool? : Json → Option Bool
  | .bool value => some value
  | _ => none

def string? : Json → Option String
  | .text parts => (joinParts parts).map String.ofList
  | _ => none

/-- A field that has to be there. -/
def required {α : Type} (read : Json → Option α) (field : Option Json) : Option α :=
  field.bind read

/-- A field that may be absent or null. -/
def optional {α : Type} (read : Json → Option α) : Option Json → Option (Option α)
  | none => some none
  | some .null => some none
  | some value => (read value).map some

/-- A field with a value to use where it is absent. -/
def withDefault {α : Type} (default : α) (read : Json → Option α) : Option Json → Option α
  | none => some default
  | some value => read value

end MiningAgent.Json
