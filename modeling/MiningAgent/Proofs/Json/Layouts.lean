import MiningAgent.Json.Printer
import MiningAgent.Proofs.Json.Assembly

/-!
# Reading what was printed

A value that was printed is read back, in either layout.  All that can change is how a
control character of a string is kept: as the code it was escaped by.
-/

namespace MiningAgent.Json

/-- Whether a character is escaped by its code.  Those are the control characters
without a short escape. -/
def isEscapedByCode (char : Char) : Bool :=
  char.toNat < 0x20 && char ∉ ['\x08', '\x0c', '\n', '\r', '\t']

/-- A part as it is read back from its spelling: a character that was escaped by its
code has become that code. -/
def Part.reread : Part → Part
  | .char written =>
      if isEscapedByCode written then .codeUnit written.toNat else .char written
  | .codeUnit code => .codeUnit code

theorem spellsPart_escapeChar (char : Char) :
    SpellsPart (Part.char char).reread (escapeChar char) := by
  unfold escapeChar
  split
  next => exact .short rfl
  next => exact .short rfl
  next => exact .short rfl
  next => exact .short rfl
  next => exact .short rfl
  next => exact .short rfl
  next => exact .short rfl
  next noQuote noBackslash noBackspace noFormFeed noLineEnd noReturn noTab =>
    split
    next control =>
      have byCode : isEscapedByCode char = true := by
        simpa [isEscapedByCode, control] using
          ⟨noBackspace, noFormFeed, noLineEnd, noReturn, noTab⟩
      have high := Text.hexDigit?_digitChar (by omega : char.toNat / 16 < 16)
      have low := Text.hexDigit?_digitChar (by omega : char.toNat % 16 < 16)
      have zero : Text.hexDigit? '0' = some 0 := rfl
      have code : char.toNat / 16 * 16 + char.toNat % 16 = char.toNat := by omega
      rw [Decimal.padded_ascii (by omega), Part.reread, if_pos byCode]
      exact .code rfl (by simp [codeBehind?, zero, high, low, code])
    next plain =>
      have asItself : isEscapedByCode char = false := by simp [isEscapedByCode, plain]
      rw [Part.reread, if_neg (by simp [asItself])]
      exact .plain (Nat.not_lt.mp plain) ⟨noQuote, noBackslash⟩

theorem spellsParts_escaped (text : List Char) :
    SpellsParts ((text.map .char).map Part.reread) ((text.map Part.char).flatMap escapePart) := by
  induction text with
  | nil => exact .nil
  | cons char rest hypothesis => exact .cons (spellsPart_escapeChar char) hypothesis

mutual

/-- A value as it is read back from its text. -/
def reread : Json → Json
  | .text parts => .text (parts.map Part.reread)
  | .array items => .array (rereadItems items)
  | .object members => .object (rereadMembers members)
  | value => value

def rereadItems : List Json → List Json
  | [] => []
  | item :: rest => item.reread :: rereadItems rest

def rereadMembers : List (List Part × Json) → List (List Part × Json)
  | [] => []
  | (name, value) :: rest => (name.map Part.reread, value.reread) :: rereadMembers rest

end

/-- A code unit that is no half of a surrogate pair stands for its character. -/
theorem joinParts_codeUnit {code : Nat} (notHigh : isHighSurrogate code = false)
    (notLow : isLowSurrogate code = false) (rest : List Part) :
    joinParts (.codeUnit code :: rest) = (joinParts rest).map (Char.ofNat code :: ·) := by
  rcases rest with _ | ⟨char | low, others⟩
  · simp [joinParts, notHigh, notLow]
  · simp [joinParts, notHigh, notLow]
  · simp [joinParts, notHigh, notLow]

/-- A string means the same after it was read back. -/
theorem joinParts_reread (text : List Char) :
    joinParts ((text.map Part.char).map Part.reread) = some text := by
  induction text with
  | nil => rfl
  | cons char rest hypothesis =>
      simp only [List.map_cons, Part.reread]
      split
      next control =>
        simp only [isEscapedByCode, Bool.and_eq_true, decide_eq_true_eq] at control
        have notHigh : isHighSurrogate char.toNat = false := by
          simp only [isHighSurrogate, Bool.and_eq_false_iff, decide_eq_false_iff_not]
          omega
        have notLow : isLowSurrogate char.toNat = false := by
          simp only [isLowSurrogate, Bool.and_eq_false_iff, decide_eq_false_iff_not]
          omega
        rw [joinParts_codeUnit notHigh notLow, hypothesis]
        simp
      next asItself => simp only [joinParts, hypothesis, Option.map_some]

/-- Values whose numbers are whole and whose strings are written character by
character. -/
inductive IsPlain : Json → Prop
  | null : IsPlain .null
  | bool (value : Bool) : IsPlain (.bool value)
  | ofNat (number : Nat) : IsPlain (.ofNat number)
  | text (text : List Char) : IsPlain (.text (text.map .char))
  | array {items : List Json} (each : ∀ item ∈ items, IsPlain item) : IsPlain (.array items)
  | object {members : List (List Part × Json)}
      (names : ∀ member ∈ members, ∃ text : List Char, member.1 = text.map .char)
      (each : ∀ member ∈ members, IsPlain member.2) : IsPlain (.object members)

theorem rereadItems_eq_map (items : List Json) : rereadItems items = items.map reread := by
  induction items with
  | nil => rfl
  | cons item rest hypothesis => simp [rereadItems, hypothesis]

theorem rereadMembers_eq_map (members : List (List Part × Json)) :
    rereadMembers members = members.map fun member =>
      (member.1.map Part.reread, member.2.reread) := by
  induction members with
  | nil => rfl
  | cons member rest hypothesis => simp [rereadMembers, hypothesis]

namespace Spells

theorem quote (text : List Char) :
    Spells [.text ((text.map .char).map Part.reread)] (quote (text.map .char)) :=
  .single (.text (spellsParts_escaped text))

theorem ofNat (number : Nat) : Spells [.number (.ofNat number)] (spellNumeral (.ofNat number)) := by
  have written : spellNumeral (.ofNat number) = Text.decimal number := by
    simp [spellNumeral, Text.Numeral.ofNat, Text.decimal]
  rw [written]
  exact .single (.integer false number)

theorem newLine (level : Nat) {tokens : List Token} {text : List Char}
    (others : Spells tokens text) : Spells tokens (newLine level ++ text) := by
  refine others.white fun char member => ?_
  simp only [Json.newLine, List.mem_cons, List.mem_replicate] at member
  rcases member with rfl | ⟨-, rfl⟩ <;> decide

section Containers

variable {α : Type} {items : List α} {chars : α → List Char} {tokens : α → List Token}

theorem separate (each : ∀ item ∈ items, Spells (tokens item) (chars item)) :
    Spells (row (items.map tokens)) (separate (items.map chars)) := by
  induction items with
  | nil => exact .nil
  | cons first rest hypothesis =>
      have head : Spells (tokens first) (chars first) := each first (by simp)
      have tail := hypothesis fun item member => each item (by simp [member])
      cases rest with
      | nil => simpa [Json.separate, row] using head
      | cons second others => simpa [Json.separate, row] using head.append (.mark rfl tail)

/-- A container on one line. -/
theorem enclosed {left right : Char} {start stop : Token} (opens : punctuation? left = some start)
    (closes : punctuation? right = some stop)
    (each : ∀ item ∈ items, Spells (tokens item) (chars item)) :
    Spells (start :: (row (items.map tokens) ++ [stop]))
      (left :: (Json.separate (items.map chars) ++ [right])) :=
  .mark opens ((separate each).append (.mark closes .nil))

/-- A container with one item a line. -/
theorem block {left right : Char} {start stop : Token} (opens : punctuation? left = some start)
    (closes : punctuation? right = some stop) (level : Nat)
    (each : ∀ item ∈ items, Spells (tokens item) (chars item)) :
    Spells (start :: (row (items.map tokens) ++ [stop]))
      (block level left right (items.map chars)) := by
  have lines : ∀ item ∈ items, Spells (tokens item) (Json.newLine (level + 1) ++ chars item) :=
    fun item member => newLine (level + 1) (each item member)
  have inner := (separate lines).append (newLine level (.mark closes .nil))
  cases items with
  | nil => exact enclosed opens closes each
  | cons first rest => simpa [Json.block, Function.comp_def] using Spells.mark opens inner

end Containers

end Spells

theorem compactItems_eq_map (items : List Json) : compactItems items = items.map compactChars := by
  induction items with
  | nil => rfl
  | cons item rest hypothesis => simp [compactItems, hypothesis]

theorem compactMembers_eq_map (members : List (List Part × Json)) :
    compactMembers members = members.map fun member =>
      quote member.1 ++ ':' :: member.2.compactChars := by
  induction members with
  | nil => rfl
  | cons member rest hypothesis => simp [compactMembers, hypothesis]

theorem IsPlain.spells_compact {value : Json} (plain : value.IsPlain) :
    Spells value.reread.tokens value.compactChars := by
  induction plain with
  | null => exact .single .null
  | bool value =>
      cases value with
      | false => exact .single .false
      | true => exact .single .true
  | ofNat number => exact .ofNat number
  | text text => exact .quote text
  | array each hypothesis =>
      simp only [compactChars, reread, tokens, compactItems_eq_map, itemTokens_eq_map,
        rereadItems_eq_map, List.map_map, Function.comp_def]
      exact .enclosed rfl rfl hypothesis
  | object names each hypothesis =>
      simp only [compactChars, reread, tokens, compactMembers_eq_map, memberTokens_eq_map,
        rereadMembers_eq_map, List.map_map, Function.comp_def]
      refine .enclosed rfl rfl fun member here => ?_
      obtain ⟨text, written⟩ := names member here
      rw [written]
      exact (Spells.quote text).append (.mark rfl (hypothesis member here))

theorem prettyItems_eq_map (level : Nat) (items : List Json) :
    prettyItems level items = items.map (prettyChars level) := by
  induction items with
  | nil => rfl
  | cons item rest hypothesis => simp [prettyItems, hypothesis]

theorem prettyMembers_eq_map (level : Nat) (members : List (List Part × Json)) :
    prettyMembers level members = members.map fun member =>
      quote member.1 ++ ':' :: ' ' :: member.2.prettyChars level := by
  induction members with
  | nil => rfl
  | cons member rest hypothesis => simp [prettyMembers, hypothesis]

theorem IsPlain.spells_pretty {value : Json} (plain : value.IsPlain) (level : Nat) :
    Spells value.reread.tokens (value.prettyChars level) := by
  induction plain generalizing level with
  | null => exact .single .null
  | bool value =>
      cases value with
      | false => exact .single .false
      | true => exact .single .true
  | ofNat number => exact .ofNat number
  | text text => exact .quote text
  | array each hypothesis =>
      simp only [prettyChars, reread, tokens, prettyItems_eq_map, itemTokens_eq_map,
        rereadItems_eq_map, List.map_map, Function.comp_def]
      exact .block rfl rfl level fun item here => hypothesis item here _
  | object names each hypothesis =>
      simp only [prettyChars, reread, tokens, prettyMembers_eq_map, memberTokens_eq_map,
        rereadMembers_eq_map, List.map_map, Function.comp_def]
      refine .block rfl rfl level fun member here => ?_
      obtain ⟨text, written⟩ := names member here
      rw [written]
      exact (Spells.quote text).append (.mark rfl (.blank (by decide) (hypothesis member here _)))

theorem IsPlain.read_compact {value : Json} (plain : value.IsPlain) :
    read? value.compact.toList = some value.reread := by
  simpa [compact] using plain.spells_compact.read

/-- White space behind a value does not matter. -/
theorem IsPlain.read_pretty_line {value : Json} (plain : value.IsPlain) :
    read? (value.pretty ++ "\n").toList = some value.reread := by
  have lineEnd : Spells [] ['\n'] := .blank (by decide) .nil
  have spelled := (plain.spells_pretty 0).append lineEnd
  rw [List.append_nil] at spelled
  simpa [pretty] using spelled.read

end MiningAgent.Json
