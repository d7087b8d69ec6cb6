import MiningAgent.Json.Value
import MiningAgent.Text.Number

/-!
# JSON tokens

The text of a value is cut into tokens character by character.  White space
separates tokens and is dropped.  Numbers and words are maximal runs, so two of
them never touch without one being misspelled or the value being ill-formed.
-/

namespace MiningAgent.Json

inductive Token
  | openBrace
  | closeBrace
  | openBracket
  | closeBracket
  | colon
  | comma
  | null
  | bool (value : Bool)
  | number (numeral : Text.Numeral)
  | text (parts : List Part)
deriving DecidableEq, Repr

def isSpace (char : Char) : Bool :=
  char = ' ' || char = '\t' || char = '\n' || char = '\r'

def startsNumber (char : Char) : Bool :=
  Text.isDigit char || char = '-'

def continuesNumber (char : Char) : Bool :=
  Text.isDigit char || char = '-' || char = '+' || char = '.' || char = 'e' || char = 'E'

def isLetter (char : Char) : Bool :=
  'a' ≤ char && char ≤ 'z'

def punctuation? (char : Char) : Option Token :=
  match char with
  | '\x7b' => some .openBrace
  | '\x7d' => some .closeBrace
  | '[' => some .openBracket
  | ']' => some .closeBracket
  | ':' => some .colon
  | ',' => some .comma
  | _ => none

def literal? (letters : List Char) : Option Token :=
  if letters = ['n', 'u', 'l', 'l'] then some .null
  else if letters = ['t', 'r', 'u', 'e'] then some (.bool true)
  else if letters = ['f', 'a', 'l', 's', 'e'] then some (.bool false)
  else none

def shortEscape? (char : Char) : Option Char :=
  match char with
  | '"' => some '"'
  | '\\' => some '\\'
  | '/' => some '/'
  | 'b' => some '\x08'
  | 'f' => some '\x0c'
  | 'n' => some '\n'
  | 'r' => some '\r'
  | 't' => some '\t'
  | _ => none

/-- An exponent: nothing, or `e` with an optional sign and at least one digit. -/
def exponent? : List Char → Option (Option (Bool × List Char))
  | [] => some none
  | mark :: rest =>
      let signed : Bool × List Char :=
        match rest with
        | '-' :: digits => (true, digits)
        | '+' :: digits => (false, digits)
        | digits => (false, digits)
      if (mark = 'e' || mark = 'E') && signed.2 ≠ [] && signed.2.all Text.isDigit then
        some (some signed)
      else none

/-- A row of characters as a number: digits without a leading zero, then an
optional fraction and an optional exponent. -/
def numeral? (chars : List Char) : Option Text.Numeral :=
  let negative := chars.head? = some '-'
  let unsigned := if negative then chars.drop 1 else chars
  let whole := unsigned.takeWhile Text.isDigit
  let behindWhole := unsigned.dropWhile Text.isDigit
  if whole = [] ∨ (whole.head? = some '0' ∧ whole.length ≠ 1) then none
  else if behindWhole.head? = some '.' then
    let fraction := (behindWhole.drop 1).takeWhile Text.isDigit
    if fraction = [] then none
    else
      (exponent? ((behindWhole.drop 1).dropWhile Text.isDigit)).map fun exponent =>
        ⟨negative, whole, fraction, exponent⟩
  else (exponent? behindWhole).map fun exponent => ⟨negative, whole, [], exponent⟩

/-- What the scanner is inside of.  Collected characters and parts stand last
first. -/
inductive Inside
  | nothing
  | word (letters : List Char)
  | number (chars : List Char)
  | text (parts : List Part)
  | escape (parts : List Part)
  /-- Behind `count` hexadecimal digits that make up `code`. -/
  | hex (parts : List Part) (count code : Nat)
deriving DecidableEq, Repr

/-- The tokens found so far, last first, and what the scanner is inside of. -/
structure Scan where
  tokens : List Token
  inside : Inside
deriving DecidableEq, Repr

namespace Scan

def start : Scan := ⟨[], .nothing⟩

/-- Ends a word or a number in front of a character that does not belong to it. -/
def close (scan : Scan) : Option Scan :=
  match scan.inside with
  | .nothing => some scan
  | .word letters => (literal? letters.reverse).map fun token => ⟨token :: scan.tokens, .nothing⟩
  | .number chars =>
      (numeral? chars.reverse).map fun numeral => ⟨.number numeral :: scan.tokens, .nothing⟩
  | _ => none

def open? (tokens : List Token) (char : Char) : Option Scan :=
  if isSpace char then some ⟨tokens, .nothing⟩
  else if char = '"' then some ⟨tokens, .text []⟩
  else if startsNumber char then some ⟨tokens, .number [char]⟩
  else if isLetter char then some ⟨tokens, .word [char]⟩
  else (punctuation? char).map fun token => ⟨token :: tokens, .nothing⟩

/-- One character.  A control character inside a string is refused. -/
def step (scan : Scan) (char : Char) : Option Scan :=
  match scan.inside with
  | .nothing => open? scan.tokens char
  | .word letters =>
      if isLetter char then some { scan with inside := .word (char :: letters) }
      else scan.close.bind fun closed => open? closed.tokens char
  | .number chars =>
      if continuesNumber char then some { scan with inside := .number (char :: chars) }
      else scan.close.bind fun closed => open? closed.tokens char
  | .text parts =>
      if char = '"' then some ⟨.text parts.reverse :: scan.tokens, .nothing⟩
      else if char = '\\' then some { scan with inside := .escape parts }
      else if char.toNat < 0x20 then none
      else some { scan with inside := .text (.char char :: parts) }
  | .escape parts =>
      if char = 'u' then some { scan with inside := .hex parts 0 0 }
      else
        (shortEscape? char).map fun escaped =>
          { scan with inside := .text (.char escaped :: parts) }
  | .hex parts count code =>
      (Text.hexDigit? char).map fun digit =>
        if count = 3 then { scan with inside := .text (.codeUnit (code * 16 + digit) :: parts) }
        else { scan with inside := .hex parts (count + 1) (code * 16 + digit) }

end Scan

def tokens? (text : List Char) : Option (List Token) :=
  ((text.foldlM Scan.step Scan.start).bind Scan.close).map fun scan => scan.tokens.reverse

end MiningAgent.Json
