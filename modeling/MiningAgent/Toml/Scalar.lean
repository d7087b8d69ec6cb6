import MiningAgent.Text.Number
import MiningAgent.Text.Numeral
import MiningAgent.Toml.Value

/-!
# TOML scalars

Booleans, numbers and points in time are made of letters, digits, signs, points,
colons and underscores.  The longest run of these is classified as a whole.
-/

namespace MiningAgent.Toml

def isScalarChar (char : Char) : Bool :=
  Text.isDigit char || ('a' ≤ char && char ≤ 'z') || ('A' ≤ char && char ≤ 'Z') ||
    char = '+' || char = '-' || char = '_' || char = '.' || char = ':'

def splitSign : List Char → Option Bool × List Char
  | '+' :: rest => (some false, rest)
  | '-' :: rest => (some true, rest)
  | rest => (none, rest)

/-- Digits without the underscores between them.  Every underscore has a digit on
both sides. -/
def ungroup? (isDigit : Char → Bool) : List Char → Option (List Char)
  | [] => none
  | [digit] => if isDigit digit then some [digit] else none
  | digit :: '_' :: rest =>
      if isDigit digit then (ungroup? isDigit rest).map (digit :: ·) else none
  | digit :: rest =>
      if isDigit digit then (ungroup? isDigit rest).map (digit :: ·) else none

/-- The digits of a whole number in decimal: a zero stands at the front only if it is
the only digit. -/
def decimalDigits? (text : List Char) : Option (List Char) :=
  (ungroup? Text.isDigit text).filter fun digits => digits.head? ≠ some '0' ∨ digits.length = 1

def valueIn (base : Nat) (digits : List Char) : Nat :=
  digits.foldl (fun value digit => value * base + (Text.hexDigit? digit).getD 0) 0

def isDigitIn (base : Nat) (char : Char) : Bool :=
  (Text.hexDigit? char).any fun digit => digit < base

def basedNumber? (base : Nat) (text : List Char) : Option Int :=
  (ungroup? (isDigitIn base) text).map fun digits => (valueIn base digits : Int)

/-- A whole number of any size.  Only a decimal one may have a sign. -/
def wholeNumber? : List Char → Option Int
  | '0' :: 'x' :: digits => basedNumber? 16 digits
  | '0' :: 'o' :: digits => basedNumber? 8 digits
  | '0' :: 'b' :: digits => basedNumber? 2 digits
  | text =>
      let (sign, unsigned) := splitSign text
      (decimalDigits? unsigned).map fun digits =>
        let magnitude : Int := valueIn 10 digits
        if sign = some true then -magnitude else magnitude

def fitsSigned (number : Int) : Bool :=
  -9223372036854775808 ≤ number && number ≤ 9223372036854775807

def isExponentMark (char : Char) : Bool :=
  char = 'e' || char = 'E'

/-- An exponent at the end of a number: nothing, or a mark with a sign and digits. -/
def exponent? : List Char → Option (Option (Bool × List Char))
  | [] => some none
  | mark :: rest =>
      if isExponentMark mark then
        let (sign, unsigned) := splitSign rest
        (ungroup? Text.isDigit unsigned).map fun digits => some (sign = some true, digits)
      else none

def numeral? (text : List Char) : Option Text.Numeral :=
  let (sign, unsigned) := splitSign text
  let isEnd (char : Char) : Bool := char = '.' || isExponentMark char
  let behind := unsigned.dropWhile (!isEnd ·)
  (decimalDigits? (unsigned.takeWhile (!isEnd ·))).bind fun whole =>
    match behind with
    | [] => none
    | '.' :: rest =>
        (ungroup? Text.isDigit (rest.takeWhile (!isExponentMark ·))).bind fun fraction =>
          (exponent? (rest.dropWhile (!isExponentMark ·))).map fun exponent =>
            ⟨sign = some true, whole, fraction, exponent⟩
    | marked =>
        (exponent? marked).map fun exponent => ⟨sign = some true, whole, [], exponent⟩

def isSpecial (text : List Char) : Bool :=
  let unsigned := (splitSign text).2
  unsigned = ['i', 'n', 'f'] || unsigned = ['n', 'a', 'n']

/-- Whether the text is a number with a fraction or an exponent, or a special one.  A
positive one has to stay finite in double precision. -/
def isFloat (text : List Char) : Bool :=
  isSpecial text || (numeral? text).any fun numeral => numeral.negative || numeral.isFinite

def fixedNumber? (digits : List Char) : Option Nat :=
  if digits.all Text.isDigit then some (valueIn 10 digits) else none

def isLeapYear (year : Nat) : Bool :=
  year % 4 = 0 && (year % 100 ≠ 0 || year % 400 = 0)

def daysIn (year month : Nat) : Nat :=
  if month = 2 then (if isLeapYear year then 29 else 28)
  else if month = 4 ∨ month = 6 ∨ month = 9 ∨ month = 11 then 30
  else 31

def isDate : List Char → Bool
  | [y1, y2, y3, y4, '-', m1, m2, '-', d1, d2] =>
      match fixedNumber? [y1, y2, y3, y4], fixedNumber? [m1, m2], fixedNumber? [d1, d2] with
      | some year, some month, some day =>
          1 ≤ month && month ≤ 12 && 1 ≤ day && day ≤ daysIn year month
      | _, _, _ => false
  | _ => false

def isHour (digits : List Char) : Bool :=
  (fixedNumber? digits).any (· ≤ 23)

def isMinute (digits : List Char) : Bool :=
  (fixedNumber? digits).any (· ≤ 59)

/-- A second, which may be a leap second. -/
def isSecond (digits : List Char) : Bool :=
  (fixedNumber? digits).any (· ≤ 60)

def behindTime? : List Char → Option (List Char)
  | h1 :: h2 :: ':' :: m1 :: m2 :: ':' :: s1 :: s2 :: rest =>
      if isHour [h1, h2] && isMinute [m1, m2] && isSecond [s1, s2] then
        match rest with
        | '.' :: fraction =>
            if fraction.takeWhile Text.isDigit = [] then none
            else some (fraction.dropWhile Text.isDigit)
        | other => some other
      else none
  | _ => none

def isOffset : List Char → Bool
  | ['Z'] => true
  | ['z'] => true
  | [sign, h1, h2, ':', m1, m2] =>
      (sign = '+' || sign = '-') && isHour [h1, h2] && isMinute [m1, m2]
  | _ => false

def isDatedTime (text : List Char) : Bool :=
  (behindTime? text).any fun behind => behind = [] || isOffset behind

/-- A date, a time of day, or a date and a time with a letter between them. -/
def isMoment (text : List Char) : Bool :=
  isDate text || behindTime? text = some [] ||
    (isDate (text.take 10) &&
      ((text.drop 10).head? = some 'T' || (text.drop 10).head? = some 't') &&
      isDatedTime (text.drop 11))

def scalarOf? (text : List Char) : Option Value :=
  if text = ['t', 'r', 'u', 'e'] then some (.boolean true)
  else if text = ['f', 'a', 'l', 's', 'e'] then some (.boolean false)
  else
    match wholeNumber? text with
    | some number => if fitsSigned number then some (.integer number) else none
    | none =>
        if isFloat text then some (.float text)
        else if isMoment text then some (.moment text)
        else none

/-- Whether a space between a date and a time of day begins here. -/
def isTimeGap (text : List Char) : Bool :=
  text.head? = some ' ' && (text.drop 1).head?.any Text.isDigit

/-- Reads a scalar at the front of a text.  A date may be followed by a space and a
time of day. -/
def readScalar (text : List Char) : Option (Value × List Char) :=
  let run := text.takeWhile isScalarChar
  let behind := text.dropWhile isScalarChar
  if isDate run ∧ isTimeGap behind then
    let time := (behind.drop 1).takeWhile isScalarChar
    if isDatedTime time then
      some (.moment (run ++ ' ' :: time), (behind.drop 1).dropWhile isScalarChar)
    else none
  else (scalarOf? run).map fun value => (value, behind)

end MiningAgent.Toml
