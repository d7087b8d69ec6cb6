import MiningAgent.Toml.Scalar
import MiningAgent.Toml.Table
import MiningAgent.Toml.Text

/-!
# Reading TOML

A document is read line by line.  Each reader takes its part off the front of the
text and returns it with the rest.
-/

namespace MiningAgent.Toml

def isKeyChar (char : Char) : Bool :=
  Text.isDigit char || ('a' ≤ char && char ≤ 'z') || ('A' ≤ char && char ≤ 'Z') ||
    char = '_' || char = '-'

def readKey : List Char → Option (Key × List Char)
  | '"' :: rest => readLine .double .text [] rest
  | '\'' :: rest => readLine .single .text [] rest
  | text =>
      let key := text.takeWhile isKeyChar
      if key = [] then none else some (key, text.dropWhile isKeyChar)

/-- Reads a key of one part or more with points between them, and the blanks around
all of these. -/
def readParts (text : List Char) : Option (List Key × List Char) :=
  match readKey (skipBlanks text) with
  | none => none
  | some (key, behind) =>
      match skipBlanks behind with
      | '.' :: rest =>
          if rest.length < text.length then
            (readParts rest).map fun (keys, left) => (key :: keys, left)
          else none
      | left => some ([key], left)
termination_by text.length

/-- Keys have fewer parts and values are nested less deeply than this. -/
def depthLimit : Nat := 80

def readPath (text : List Char) : Option (List Key × List Char) :=
  (readParts text).filter fun (keys, _) => keys.length < depthLimit

def readPair (readValue : List Char → Option (Value × List Char)) (text : List Char) :
    Option ((List Key × Value) × List Char) :=
  (readPath text).bind fun (path, behind) =>
    match behind with
    | '=' :: rest =>
        (readValue (skipBlanks rest)).map fun (value, left) => ((path, value), left)
    | _ => none

/-- Reads the items of an array up to its closing bracket.  Line breaks and comments
may stand between them, and a comma behind the last one. -/
def readItems (readValue : List Char → Option (Value × List Char)) (text : List Char) :
    Option (List Value × List Char) :=
  match skipLines false text with
  | ']' :: rest => some ([], rest)
  | start =>
      match readValue start with
      | none => none
      | some (value, behind) =>
          match skipLines false behind with
          | ']' :: rest => some ([value], rest)
          | ',' :: rest =>
              if rest.length < text.length then
                (readItems readValue rest).map fun (values, left) => (value :: values, left)
              else none
          | _ => none
termination_by text.length

/-- Reads the pairs of a table in braces up to the closing brace.  All of it stands on
one line, without a comma behind the last pair. -/
def readPairs (readValue : List Char → Option (Value × List Char)) (text : List Char) :
    Option (List (List Key × Value) × List Char) :=
  match readPair readValue text with
  | none => none
  | some (pair, behind) =>
      match skipBlanks behind with
      | '\x7d' :: rest => some ([pair], rest)
      | ',' :: rest =>
          if rest.length < text.length then
            (readPairs readValue rest).map fun (pairs, left) => (pair :: pairs, left)
          else none
      | _ => none
termination_by text.length

def readTable (readValue : List Char → Option (Value × List Char)) (text : List Char) :
    Option (Value × List Char) :=
  match skipBlanks text with
  | '\x7d' :: rest => some (.table .inline [], rest)
  | start =>
      (readPairs readValue start).bind fun (pairs, rest) =>
        (entriesOf? pairs).map fun entries => (.table .inline entries, rest)

def readPlain : List Char → Option (Value × List Char)
  | '"' :: rest => (readString .double rest).map fun (text, left) => (.text text, left)
  | '\'' :: rest => (readString .single rest).map fun (text, left) => (.text text, left)
  | text => readScalar text

/-- Reads a value in which arrays and tables are nested at most `depth` times. -/
def readValue : Nat → List Char → Option (Value × List Char)
  | 0, text => readPlain text
  | depth + 1, text =>
      match text with
      | '[' :: rest =>
          (readItems (readValue depth) rest).map fun (items, left) => (.array items, left)
      | '\x7b' :: rest => readTable (readValue depth) rest
      | _ => readPlain text

def readHeader (text : List Char) : Option (List Key × List Char) :=
  (readPath text).bind fun (path, behind) =>
    match behind with
    | ']' :: rest => some (path, rest)
    | _ => none

def readRowHeader (text : List Char) : Option (List Key × List Char) :=
  (readHeader text).bind fun (path, behind) =>
    match behind with
    | ']' :: rest => some (path, rest)
    | _ => none

def readStatement : List Char → Option (Statement × List Char)
  | '[' :: '[' :: rest => (readRowHeader rest).map fun (path, left) => (.row path, left)
  | '[' :: rest => (readHeader rest).map fun (path, left) => (.table path, left)
  | text =>
      (readPair (readValue (depthLimit - 1)) text).map fun ((path, value), left) =>
        (.pair path value, left)

def readNext (text : List Char) : Option (Option Statement × List Char) :=
  match nextLine? text with
  | some rest => some (none, rest)
  | none =>
      (readStatement (skipBlanks text)).bind fun (statement, behind) =>
        (nextLine? behind).map fun rest => (some statement, rest)

def readStatements (text : List Char) : Option (List Statement) :=
  if text = [] then some []
  else
    match readNext text with
    | none => none
    | some (statement, rest) =>
        if rest.length < text.length then
          (readStatements rest).map fun statements => statement.toList ++ statements
        else none
termination_by text.length

/-- The text without a byte order mark at its front. -/
def withoutMark : List Char → List Char
  | '\uFEFF' :: rest => rest
  | text => text

def read? (text : List Char) : Option Entries :=
  (readStatements (withoutMark text)).bind ofStatements?

end MiningAgent.Toml
