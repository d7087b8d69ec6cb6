import MiningAgent.Json.Token

/-!
# Reading JSON

Tokens are put together to a value one by one.  The containers that are still open
stand on a stack, the innermost first.
-/

namespace MiningAgent.Json

/-- A container whose end is still to come.  Items and members stand last first. -/
inductive Frame
  | array (items : List Json)
  | object (members : List (List Part × Json))
  /-- A member of the object below whose value is still to come. -/
  | member (name : List Part)

inductive Due
  | value
  /-- A value or the end of an array just opened. -/
  | firstItem
  | name
  /-- A name or the end of an object just opened. -/
  | firstName
  | colon
  /-- A comma or the end of the innermost container. -/
  | separator
  | nothing (value : Json)

structure Assembly where
  stack : List Frame
  due : Due

namespace Assembly

def start : Assembly := ⟨[], .value⟩

def place (stack : List Frame) (value : Json) : Option Assembly :=
  match stack with
  | [] => some ⟨[], .nothing value⟩
  | .array items :: rest => some ⟨.array (value :: items) :: rest, .separator⟩
  | .member name :: .object members :: rest =>
      some ⟨.object ((name, value) :: members) :: rest, .separator⟩
  | _ => none

def beginValue (stack : List Frame) (token : Token) : Option Assembly :=
  match token with
  | .null => place stack .null
  | .bool value => place stack (.bool value)
  | .number numeral => place stack (.number numeral)
  | .text parts => place stack (.text parts)
  | .openBracket => some ⟨.array [] :: stack, .firstItem⟩
  | .openBrace => some ⟨.object [] :: stack, .firstName⟩
  | _ => none

def beginMember (stack : List Frame) (token : Token) : Option Assembly :=
  match token with
  | .text parts => some ⟨.member parts :: stack, .colon⟩
  | _ => none

def closeArray (stack : List Frame) : Option Assembly :=
  match stack with
  | .array items :: rest => place rest (.array items.reverse)
  | _ => none

def closeObject (stack : List Frame) : Option Assembly :=
  match stack with
  | .object members :: rest => place rest (.object members.reverse)
  | _ => none

def step (assembly : Assembly) (token : Token) : Option Assembly :=
  match assembly.due with
  | .value => beginValue assembly.stack token
  | .firstItem =>
      if token = .closeBracket then closeArray assembly.stack
      else beginValue assembly.stack token
  | .name => beginMember assembly.stack token
  | .firstName =>
      if token = .closeBrace then closeObject assembly.stack
      else beginMember assembly.stack token
  | .colon => if token = .colon then some { assembly with due := .value } else none
  | .separator =>
      match token, assembly.stack with
      | .comma, .array _ :: _ => some { assembly with due := .value }
      | .comma, .object _ :: _ => some { assembly with due := .name }
      | .closeBracket, stack => closeArray stack
      | .closeBrace, stack => closeObject stack
      | _, _ => none
  | .nothing _ => none

def result? (assembly : Assembly) : Option Json :=
  match assembly.due with
  | .nothing value => some value
  | _ => none

end Assembly

def ofTokens? (tokens : List Token) : Option Json :=
  (tokens.foldlM Assembly.step Assembly.start).bind Assembly.result?

def read? (text : List Char) : Option Json :=
  (tokens? text).bind ofTokens?

end MiningAgent.Json
