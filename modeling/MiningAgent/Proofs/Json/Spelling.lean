import MiningAgent.Json.Token
import Mathlib.Data.List.Chain

/-!
# How tokens are spelled

A row of tokens has many texts.  White space stands anywhere between the tokens, and a
character of a string is spelled as itself or escaped.  Only numbers are spelled in one
way here, as they are whole.
-/

namespace MiningAgent

/-- A whole number as it is written, with a sign or without one.  Zero may have a sign too. -/
def Text.Numeral.ofInteger (negative : Bool) (magnitude : Nat) : Text.Numeral :=
  ⟨negative, Text.decimal magnitude, [], none⟩

namespace Json

/-- The white space of JSON. -/
def blanks : List Char := [' ', '\t', '\n', '\r']

/-- The number that hexadecimal digits make up behind those of `code`. -/
def codeBehind? (code : Nat) (digits : List Char) : Option Nat :=
  digits.foldlM (fun code digit => (Text.hexDigit? digit).map (code * 16 + ·)) code

/-- The spellings of one part of a string. -/
inductive SpellsPart : Part → List Char → Prop
  | plain {char : Char} (printable : 0x20 ≤ char.toNat) (unmarked : char ≠ '"' ∧ char ≠ '\\') :
      SpellsPart (.char char) [char]
  | short {char mark : Char} (means : shortEscape? mark = some char) :
      SpellsPart (.char char) ['\\', mark]
  | code {code : Nat} {digits : List Char} (four : digits.length = 4)
      (means : codeBehind? 0 digits = some code) :
      SpellsPart (.codeUnit code) ('\\' :: 'u' :: digits)

inductive SpellsParts : List Part → List Char → Prop
  | nil : SpellsParts [] []
  | cons {part : Part} {spelling : List Char} {parts : List Part} {spelled : List Char}
      (first : SpellsPart part spelling) (others : SpellsParts parts spelled) :
      SpellsParts (part :: parts) (spelling ++ spelled)

inductive SpellsToken : Token → List Char → Prop
  | mark {token : Token} {char : Char} (means : punctuation? char = some token) :
      SpellsToken token [char]
  | null : SpellsToken .null "null".toList
  | false : SpellsToken (.bool false) "false".toList
  | true : SpellsToken (.bool true) "true".toList
  | integer (negative : Bool) (magnitude : Nat) :
      SpellsToken (.number (.ofInteger negative magnitude))
        ((if negative then ['-'] else []) ++ Text.decimal magnitude)
  | text {parts : List Part} {spelled : List Char} (spells : SpellsParts parts spelled) :
      SpellsToken (.text parts) ('"' :: (spelled ++ ['"']))

inductive Spells : List Token → List Char → Prop
  | nil : Spells [] []
  | blank {char : Char} {tokens : List Token} {text : List Char} (white : char ∈ blanks)
      (others : Spells tokens text) : Spells tokens (char :: text)
  | token {token : Token} {spelling : List Char} {tokens : List Token} {text : List Char}
      (first : SpellsToken token spelling) (others : Spells tokens text) :
      Spells (token :: tokens) (spelling ++ text)

namespace Spells

variable {token : Token} {tokens before behind : List Token} {text front rest : List Char}

theorem single {spelling : List Char} (spelled : SpellsToken token spelling) :
    Spells [token] spelling := by
  simpa using Spells.token spelled .nil

/-- Texts one behind the other spell the tokens one behind the other. -/
theorem append (first : Spells before front) (second : Spells behind rest) :
    Spells (before ++ behind) (front ++ rest) := by
  induction first with
  | nil => exact second
  | blank white _ hypothesis => exact .blank white hypothesis
  | token spelled _ hypothesis => simpa using Spells.token spelled hypothesis

theorem mark {char : Char} (means : punctuation? char = some token) (others : Spells tokens text) :
    Spells (token :: tokens) (char :: text) :=
  .token (.mark means) others

theorem white {blank : List Char} (white : ∀ char ∈ blank, char ∈ blanks)
    (others : Spells tokens text) : Spells tokens (blank ++ text) := by
  induction blank with
  | nil => exact others
  | cons char rest hypothesis =>
      exact .blank (white char (by simp))
        (hypothesis fun other here => white other (by simp [here]))

end Spells

def Token.isMark : Token → Bool
  | .openBrace | .closeBrace | .openBracket | .closeBracket | .colon | .comma => true
  | _ => false

/-- Of two neighbours one is a mark, so no two words or numbers run into each other. -/
def Parted (tokens : List Token) : Prop :=
  tokens.IsChain fun first second => first.isMark ∨ second.isMark

namespace Parted

variable {mark : Token} {before behind : List Token}

/-- A mark parts whatever stands in front of it and behind it. -/
theorem join (first : Parted before) (marked : mark.isMark) (second : Parted behind) :
    Parted (before ++ mark :: behind) := by
  have last : Parted (mark :: behind) :=
    List.isChain_cons.mpr ⟨fun _ _ => .inl marked, second⟩
  refine List.isChain_append.mpr ⟨first, last, fun _ _ other head => ?_⟩
  obtain rfl := Option.some.inj head
  exact .inr marked

end Parted

end Json

end MiningAgent
