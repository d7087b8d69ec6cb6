import MiningAgent.Proofs.Settings.Values
import MiningAgent.Proofs.Toml.Scalars
import MiningAgent.Text.Numeral
import Mathlib.Tactic.ByContra

/-!
# Wordings of values

A host may put blanks around a value, write a number with a plus and with zeros in front of
it, and write a level by any of its names in upper or lower case.  The parsers of variables
take exactly these wordings.
-/

namespace MiningAgent

variable {text content digits : List Char} {number limit : Nat}

namespace Text

open Toml (EndsRun dropWhile_run endsRun_append endsRun_cons)

/-- A text that consists of another and blanks around it. -/
def Pads (content text : List Char) : Prop :=
  ∃ front back : List Char, (∀ char ∈ front, isBlank char) ∧ (∀ char ∈ back, isBlank char) ∧
    text = front ++ (content ++ back)

/-- A text with no blank at either end. -/
def IsTrimmed (content : List Char) : Prop :=
  EndsRun isBlank content ∧ EndsRun isBlank content.reverse

theorem isTrimmed_of_solid (solid : ∀ char ∈ content, isBlank char = false) :
    IsTrimmed content :=
  ⟨fun char first => solid char (List.mem_of_head? first), fun char last =>
    solid char (List.mem_reverse.mp (List.mem_of_head? last))⟩

theorem trim_pads (text : List Char) : Pads (trim text) text := by
  refine ⟨text.takeWhile isBlank,
    ((text.dropWhile isBlank).reverse.takeWhile isBlank).reverse, ?_, ?_, ?_⟩
  · exact fun char member => List.mem_takeWhile_imp member
  · exact fun char member => List.mem_takeWhile_imp (List.mem_reverse.mp member)
  · rw [trim, ← List.reverse_append, List.takeWhile_append_dropWhile, List.reverse_reverse,
      List.takeWhile_append_dropWhile]

theorem trim_of_pads (pads : Pads content text) (trimmed : IsTrimmed content) :
    trim text = content := by
  obtain ⟨front, back, blankFront, blankBack, rfl⟩ := pads
  by_cases empty : content = []
  · subst empty
    have blank : ∀ char ∈ front ++ back, isBlank char := List.forall_mem_append.mpr
      ⟨blankFront, blankBack⟩
    rw [trim, List.nil_append, List.dropWhile_eq_nil_iff.mpr blank]
    rfl
  · have start : EndsRun isBlank (content ++ back) := by
      intro char first
      rw [List.head?_append_of_ne_nil _ empty] at first
      exact trimmed.1 char first
    have reversed : ∀ char ∈ back.reverse, isBlank char := fun char member =>
      blankBack char (List.mem_reverse.mp member)
    rw [trim, dropWhile_run blankFront start, List.reverse_append,
      dropWhile_run reversed trimmed.2, List.reverse_reverse]

/-- A text with blanks around something solid is that once it is trimmed. -/
theorem exists_pads_iff {kind : List Char → Prop}
    (solid : ∀ content, kind content → IsTrimmed content) :
    (∃ content, Pads content text ∧ kind content) ↔ kind (trim text) := by
  constructor
  · rintro ⟨content, pads, kept⟩
    rwa [trim_of_pads pads (solid content kept)]
  · exact fun kept => ⟨trim text, trim_pads text, kept⟩

/-- A whole number as a host writes it: one digit or more, perhaps behind a plus. -/
inductive SpellsNumber : Nat → List Char → Prop
  | plain {digits : List Char} (filled : digits ≠ []) (all : ∀ char ∈ digits, isDigit char) :
      SpellsNumber (Numeral.digitsValue digits) digits
  | plus {digits : List Char} (filled : digits ≠ []) (all : ∀ char ∈ digits, isDigit char) :
      SpellsNumber (Numeral.digitsValue digits) ('+' :: digits)

/-- A text that spells a number between blanks. -/
def WordsNumber (number : Nat) (text : List Char) : Prop :=
  ∃ content, Pads content text ∧ SpellsNumber number content

theorem le_foldl_digits (value : Nat) (digits : List Char) :
    value ≤ digits.foldl (fun value digit => value * 10 + (digit.toNat - '0'.toNat)) value := by
  induction digits generalizing value with
  | nil => exact Nat.le_refl value
  | cons digit rest hypothesis =>
      have grown : value ≤ value * 10 + (digit.toNat - '0'.toNat) := by omega
      exact Nat.le_trans grown (hypothesis _)

/-- Digits are read if the number that they complete stays within the limit. -/
theorem readDigits_eq_ok_iff {value : Nat} (fits : value ≤ limit) :
    readDigits limit value digits = .ok number ↔
      (∀ char ∈ digits, isDigit char) ∧ number ≤ limit ∧ number =
        digits.foldl (fun value digit => value * 10 + (digit.toNat - '0'.toNat)) value := by
  induction digits generalizing value with
  | nil =>
      simp only [readDigits, Except.ok.injEq, List.not_mem_nil, false_implies, implies_true,
        true_and, List.foldl_nil]
      constructor
      · rintro rfl
        exact ⟨fits, rfl⟩
      · rintro ⟨-, same⟩
        exact same.symm
  | cons char rest hypothesis =>
      rw [readDigits, List.forall_mem_cons, List.foldl_cons]
      by_cases digit : isDigit char
      · have known : digit? char = some (char.toNat - '0'.toNat) := by rw [digit?, if_pos digit]
        rw [known]
        by_cases large : limit < value * 10 + (char.toNat - '0'.toNat)
        · have grown := le_foldl_digits (value * 10 + (char.toNat - '0'.toNat)) rest
          simp only [large, if_true]
          constructor
          · intro read
            cases read
          · rintro ⟨_, small, rfl⟩
            omega
        · simp only [large, if_false]
          rw [hypothesis (Nat.le_of_not_lt large)]
          simp [digit]
      · have unknown : digit? char = none := by rw [digit?, if_neg digit]
        rw [unknown]
        simp [digit]

/-- A number is read if it is spelled and stays within the limit. -/
theorem readNumber_eq_ok_iff :
    readNumber limit text = .ok number ↔ SpellsNumber number text ∧ number ≤ limit := by
  have digits (digits : List Char) :
      readDigits limit 0 digits = .ok number ↔ (∀ char ∈ digits, isDigit char) ∧ number ≤ limit ∧
        number = digits.foldl (fun value digit => value * 10 + (digit.toNat - '0'.toNat)) 0 :=
    readDigits_eq_ok_iff (Nat.zero_le limit)
  constructor
  · intro read
    unfold readNumber at read
    split at read
    next => cases read
    next => cases read
    next filled =>
      obtain ⟨all, small, rfl⟩ := (digits _).mp read
      refine ⟨.plus ?_ all, small⟩
      rintro rfl
      exact filled rfl
    next filled _ _ =>
      obtain ⟨all, small, rfl⟩ := (digits _).mp read
      exact ⟨.plain filled all, small⟩
  · rintro ⟨spells, small⟩
    cases spells with
    | plain filled all =>
        have read := (digits text).mpr ⟨all, small, rfl⟩
        unfold readNumber
        split
        next => exact absurd rfl filled
        next => exact absurd (all '+' List.mem_cons_self) (by decide)
        next => exact absurd (all '+' List.mem_cons_self) (by decide)
        next => exact read
    | @plus rest filled all =>
        have read := (digits rest).mpr ⟨all, small, rfl⟩
        unfold readNumber
        split
        next empty => cases empty
        next alone =>
          cases alone
          exact absurd rfl filled
        next same =>
          cases same
          exact read
        next other => exact absurd rfl (other _)

theorem SpellsNumber.isTrimmed (spells : SpellsNumber number content) : IsTrimmed content := by
  have solid {digits : List Char} (all : ∀ char ∈ digits, isDigit char) :
      ∀ char ∈ digits, isBlank char = false := fun char member =>
    isBlank_of_isDigit (all char member)
  cases spells with
  | plain filled all => exact isTrimmed_of_solid (solid all)
  | plus filled all =>
      exact isTrimmed_of_solid (List.forall_mem_cons.mpr ⟨by decide, solid all⟩)

theorem readNumber_trim_eq_ok_iff :
    readNumber limit (trim text) = .ok number ↔ WordsNumber number text ∧ number ≤ limit := by
  rw [readNumber_eq_ok_iff, WordsNumber, exists_pads_iff fun _ spells => spells.isTrimmed]

/-- A number that fits into a word of the machine is parsed as that word. -/
theorem parse_trim_eq_ok_iff {α ε : Type} {make : Nat → α} {magnitude : α → Nat}
    {fault : NumberFault → ε} (makes : ∀ number ≤ limit, magnitude (make number) = number)
    (bounded : ∀ value, magnitude value ≤ limit) (injective : Function.Injective magnitude)
    {value : α} :
    ((readNumber limit (trim text)).map make).mapError fault = .ok value ↔
      WordsNumber (magnitude value) text := by
  have read : readNumber limit (trim text) = .ok (magnitude value) ↔
      WordsNumber (magnitude value) text := by
    rw [readNumber_trim_eq_ok_iff, and_iff_left (bounded value)]
  rw [← read]
  cases found : readNumber limit (trim text) with
  | error fault => simp [Except.map, Except.mapError]
  | ok number =>
      have fits := (readNumber_eq_ok_iff.mp found).2
      simp only [Except.map, Except.mapError, Except.ok.injEq]
      rw [← injective.eq_iff, makes number fits]

/-- A character beyond ASCII. -/
def IsForeign (char : Char) : Prop := 128 ≤ char.toNat

instance (char : Char) : Decidable (IsForeign char) :=
  inferInstanceAs (Decidable (128 ≤ char.toNat))

/-- Full upper-casing of characters.  It may differ from `upperCase` as long as both
leave characters beyond ASCII. -/
def IsUpperCase (upper : Char → List Char) : Prop :=
  ∀ char, upper char = upperCase char ∨
    (∃ other ∈ upper char, IsForeign other) ∧ ∃ other ∈ upperCase char, IsForeign other

variable {upper : Char → List Char}

theorem isUpperCase_upperCase : IsUpperCase upperCase := fun _ => .inl rfl

theorem upperCase_of_isBlank {char : Char} (blank : isBlank char) : upperCase char = [char] := by
  have small : ¬ (97 ≤ char.toNat ∧ char.toNat ≤ 122) := by
    simp only [isBlank, Bool.or_eq_true, Bool.and_eq_true, decide_eq_true_eq] at blank
    omega
  have same : char.toUpper = char := by
    refine dif_neg ?_
    rw [UInt32.le_iff_toNat_le, UInt32.le_iff_toNat_le]
    exact small
  unfold upperCase
  split
  case h_11 => rw [same]
  all_goals cases blank

/-- Upper-casing that ends in ASCII is the same whichever way it is done. -/
theorem flatMap_upper_eq_iff (uppercase : IsUpperCase upper) {word : List Char}
    (ascii : ∀ char ∈ word, ¬ IsForeign char) :
    text.flatMap upper = word ↔ toUpperCase text = word := by
  have agree {first second : Char → List Char} (whole : text.flatMap first = word)
      (either : ∀ char, second char = first char ∨ ∃ other ∈ first char, IsForeign other) :
      text.flatMap second = word := by
    rw [← whole]
    refine List.flatMap_congr fun char member => ?_
    rcases either char with same | ⟨other, inside, foreign⟩
    · exact same
    · have within : other ∈ word := whole ▸ List.mem_flatMap.mpr ⟨char, member, inside⟩
      exact absurd foreign (ascii other within)
  constructor
  · intro whole
    refine agree whole fun char => ?_
    rcases uppercase char with same | ⟨foreign, _⟩
    · exact .inl same.symm
    · exact .inr foreign
  · intro whole
    refine agree whole fun char => ?_
    rcases uppercase char with same | ⟨_, foreign⟩
    · exact .inl same
    · exact .inr foreign

end Text

namespace LogLevel

open Text

/-- The names that a host may use for a level, in upper case. -/
def spellings : LogLevel → List String
  | silent => ["NONE", "OFF"]
  | error => ["ERROR"]
  | warn => ["WARN", "WARNING"]
  | info => ["INFO"]
  | debug => ["DEBUG"]

/-- A text that names a level, in upper or lower case and between blanks. -/
def Words (upper : Char → List Char) (level : LogLevel) (text : List Char) : Prop :=
  ∃ content, Pads content text ∧ String.ofList (content.flatMap upper) ∈ level.spellings

variable {upper : Char → List Char} {level : LogLevel}

theorem ofSpelling?_eq_some_iff :
    ofSpelling? text = some level ↔ String.ofList (toUpperCase text) ∈ level.spellings := by
  unfold ofSpelling?
  generalize String.ofList (toUpperCase text) = word
  by_cases off : word = "OFF"
  · subst off
    cases level <;> decide
  · by_cases warning : word = "WARNING"
    · subst warning
      cases level <;> decide
    · have exact : ofName? word = some level ↔ level.name = word := by
        unfold ofName?
        constructor
        · intro found
          simpa using List.find?_some found
        · rintro rfl
          cases level <;> rfl
      simp only [off, warning, if_false, exact]
      cases level <;> simp [spellings, name, off, warning, eq_comm]

/-- Names of levels are plain capital letters. -/
theorem spellings_plain {word : String} (named : word ∈ level.spellings) :
    ∀ char ∈ word.toList, ¬ IsForeign char ∧ isBlank char = false := by
  have every : ∀ level : LogLevel, level.spellings.all fun word =>
      word.toList.all fun char => char.toNat < 128 && !isBlank char := by
    intro level
    cases level <;> decide
  intro char member
  have plain := List.all_eq_true.mp (List.all_eq_true.mp (every level) word named) char member
  simpa [IsForeign] using plain

theorem named_iff (uppercase : IsUpperCase upper) :
    String.ofList (text.flatMap upper) ∈ level.spellings ↔
      String.ofList (toUpperCase text) ∈ level.spellings := by
  have same {word : String} (named : word ∈ level.spellings) :
      String.ofList (text.flatMap upper) = word ↔ String.ofList (toUpperCase text) = word := by
    have ascii : ∀ char ∈ word.toList, ¬ IsForeign char := fun char member =>
      (spellings_plain named char member).1
    rw [← String.toList_inj, ← String.toList_inj, String.toList_ofList, String.toList_ofList]
    exact flatMap_upper_eq_iff uppercase ascii
  constructor
  · intro named
    rw [(same named).mp rfl]
    exact named
  · intro named
    rw [(same named).mpr rfl]
    exact named

/-- No blank becomes part of a name. -/
theorem isTrimmed_of_named (named : String.ofList (toUpperCase content) ∈ level.spellings) :
    IsTrimmed content := by
  refine isTrimmed_of_solid fun char member => ?_
  by_contra blank
  rw [Bool.not_eq_false] at blank
  have kept : char ∈ toUpperCase content :=
    List.mem_flatMap.mpr ⟨char, member, by simp [upperCase_of_isBlank blank]⟩
  rw [← String.toList_ofList (l := toUpperCase content)] at kept
  rw [(spellings_plain named char kept).2] at blank
  cases blank

theorem ofSpelling?_trim_eq_some_iff (uppercase : IsUpperCase upper) :
    ofSpelling? (trim text) = some level ↔ Words upper level text := by
  have solid (content : List Char)
      (named : String.ofList (content.flatMap upper) ∈ level.spellings) : IsTrimmed content :=
    isTrimmed_of_named ((named_iff uppercase).mp named)
  rw [ofSpelling?_eq_some_iff, ← named_iff uppercase, Words, exists_pads_iff solid]

end LogLevel

namespace Settings

open Text

theorem parseLong_eq_ok_iff {value : UInt64} :
    parseLong (trim text) = .ok value ↔ WordsNumber value.toNat text :=
  parse_trim_eq_ok_iff (fun _ small => UInt64.toNat_ofNat_of_lt' (Nat.lt_succ_of_le small))
    (fun value => Nat.le_of_lt_succ value.toNat_lt) fun _ _ => UInt64.toNat_inj.mp

theorem parseWord_eq_ok_iff {value : UInt32} :
    parseWord (trim text) = .ok value ↔ WordsNumber value.toNat text :=
  parse_trim_eq_ok_iff (fun _ small => UInt32.toNat_ofNat_of_lt' (Nat.lt_succ_of_le small))
    (fun value => Nat.le_of_lt_succ value.toNat_lt) fun _ _ => UInt32.toNat_inj.mp

theorem parseLevel_eq_ok_iff {upper : Char → List Char} (uppercase : IsUpperCase upper)
    {level : LogLevel} : parseLevel (trim text) = .ok level ↔ level.Words upper text := by
  rw [← LogLevel.ofSpelling?_trim_eq_some_iff uppercase, parseLevel]
  cases LogLevel.ofSpelling? (trim text) with
  | none => simp
  | some named => simp

end Settings

end MiningAgent
