import MiningAgent.Text.Number

/-!
# TOML characters and strings

A string is quoted once on a single line, or three times over several lines.
Double quotes allow escapes and apostrophes do not.
-/

namespace MiningAgent.Toml

def isBlank (char : Char) : Bool :=
  char = ' ' || char = '\t'

/-- The characters of comments and strings: a tab and everything printable. -/
def isPrintable (char : Char) : Bool :=
  char = '\t' || (0x20 ≤ char.toNat && char.toNat ≠ 0x7F)

def skipBlanks (text : List Char) : List Char :=
  text.dropWhile isBlank

def newline? : List Char → Option (List Char)
  | '\n' :: rest => some rest
  | '\r' :: '\n' :: rest => some rest
  | _ => none

/-- The next line, if nothing but blanks and a comment is left of this one. -/
def nextLine? (text : List Char) : Option (List Char) :=
  let behind :=
    match skipBlanks text with
    | '#' :: comment => comment.dropWhile isPrintable
    | other => other
  if behind = [] then some [] else newline? behind

/-- Skips blanks, line breaks and comments, from inside a comment or outside, up to
the first character that is none of these. -/
def skipLines : Bool → List Char → List Char
  | _, [] => []
  | _, '\n' :: rest => skipLines false rest
  | _, '\r' :: '\n' :: rest => skipLines false rest
  | true, char :: rest => if isPrintable char then skipLines true rest else char :: rest
  | false, char :: rest =>
      if char = '#' then skipLines true rest
      else if isBlank char then skipLines false rest
      else char :: rest

structure Quote where
  mark : Char
  escapes : Bool
deriving DecidableEq, Repr

namespace Quote

def double : Quote := ⟨'"', true⟩

def single : Quote := ⟨'\'', false⟩

def isPlain (quote : Quote) (char : Char) : Bool :=
  isPrintable char && char ≠ quote.mark && (!quote.escapes || char ≠ '\\')

end Quote

def shortEscape? (char : Char) : Option Char :=
  match char with
  | '"' => some '"'
  | '\\' => some '\\'
  | 'b' => some '\x08'
  | 'f' => some '\x0c'
  | 'n' => some '\n'
  | 'r' => some '\r'
  | 't' => some '\t'
  | _ => none

/-- The character with this code point; surrogates are none. -/
def scalar? (code : Nat) : Option Char :=
  if code.isValidChar then some (Char.ofNat code) else none

/-- What the characters read so far have to be followed by. -/
inductive Inside
  | text
  | escape
  | code (left value : Nat)
  | quotes (count : Nat)
  /-- The other half of a line break; a folded one leaves nothing behind. -/
  | carriage (folded : Bool)
  /-- The white space that a backslash at the end of a line folds away, with the line
  break still to come or not. -/
  | fold (broken : Bool)
deriving DecidableEq, Repr

def beginEscape (char : Char) : Option (Inside ⊕ Char) :=
  if char = 'u' then some (.inl (.code 4 0))
  else if char = 'U' then some (.inl (.code 8 0))
  else (shortEscape? char).map .inr

def continueCode (left value : Nat) (char : Char) : Option (Inside ⊕ Char) :=
  (Text.hexDigit? char).bind fun digit =>
    if left ≤ 1 then (scalar? (value * 16 + digit)).map .inr
    else some (.inl (.code (left - 1) (value * 16 + digit)))

/-- Reads a string on one line behind its opening quote.  `read` holds the
characters so far, last first.  The result is the text and what follows the closing
quote. -/
def readLine (quote : Quote) : Inside → List Char → List Char → Option (List Char × List Char)
  | _, _, [] => none
  | inside, read, char :: rest =>
      match inside with
      | .text =>
          if char = quote.mark then some (read.reverse, rest)
          else if quote.isPlain char then readLine quote .text (char :: read) rest
          else if quote.escapes ∧ char = '\\' then readLine quote .escape read rest
          else none
      | .escape =>
          match beginEscape char with
          | some (.inl inside) => readLine quote inside read rest
          | some (.inr meant) => readLine quote .text (meant :: read) rest
          | none => none
      | .code left value =>
          match continueCode left value char with
          | some (.inl inside) => readLine quote inside read rest
          | some (.inr meant) => readLine quote .text (meant :: read) rest
          | none => none
      | _ => none

def continueBlock (quote : Quote) (read : List Char) (char : Char) :
    Option (Inside × List Char) :=
  if char = quote.mark then some (.quotes 1, read)
  else if quote.isPlain char then some (.text, char :: read)
  else if char = '\n' then some (.text, '\n' :: read)
  else if char = '\r' then some (.carriage false, read)
  else if quote.escapes ∧ char = '\\' then some (.escape, read)
  else none

def stepBlock (quote : Quote) (inside : Inside) (read : List Char) (char : Char) :
    Option (Inside × List Char) :=
  let place (next : Inside ⊕ Char) : Inside × List Char :=
    match next with
    | .inl inside => (inside, read)
    | .inr meant => (.text, meant :: read)
  match inside with
  | .text => continueBlock quote read char
  | .escape =>
      if isBlank char then some (.fold false, read)
      else if char = '\n' then some (.fold true, read)
      else if char = '\r' then some (.carriage true, read)
      else (beginEscape char).map place
  | .code left value => (continueCode left value char).map place
  | .quotes count =>
      if char = quote.mark then some (.quotes (count + 1), read)
      else if count < 3 then continueBlock quote (List.replicate count quote.mark ++ read) char
      else none
  | .carriage folded =>
      if char ≠ '\n' then none
      else if folded then some (.fold true, read)
      else some (.text, '\n' :: read)
  | .fold broken =>
      if isBlank char then some (.fold broken, read)
      else if char = '\n' then some (.fold true, read)
      else if char = '\r' then some (.carriage true, read)
      else if broken then continueBlock quote read char
      else none

/-- Reads a string over several lines behind its opening quotes.  It ends at three
quotes in a row; up to two more in front of them belong to the text. -/
def readBlock (quote : Quote) : Inside → List Char → List Char → Option (List Char × List Char)
  | inside, read, [] =>
      match inside with
      | .quotes count =>
          if 3 ≤ count ∧ count ≤ 5 then
            some ((List.replicate (count - 3) quote.mark ++ read).reverse, [])
          else none
      | _ => none
  | inside, read, char :: rest =>
      match inside with
      | .quotes count =>
          if 3 ≤ count ∧ count ≤ 5 ∧ char ≠ quote.mark then
            some ((List.replicate (count - 3) quote.mark ++ read).reverse, char :: rest)
          else
            (stepBlock quote inside read char).bind fun (next, read) =>
              readBlock quote next read rest
      | _ =>
          (stepBlock quote inside read char).bind fun (next, read) =>
            readBlock quote next read rest

/-- Reads a string behind its first quote.  A line break right behind three opening
quotes is not part of the text. -/
def readString (quote : Quote) (text : List Char) : Option (List Char × List Char) :=
  if text.take 2 = [quote.mark, quote.mark] then
    let behind := text.drop 2
    readBlock quote .text [] ((newline? behind).getD behind)
  else readLine quote .text [] text

end MiningAgent.Toml
