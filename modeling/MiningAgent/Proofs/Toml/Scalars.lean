import MiningAgent.Proofs.Json.Digits
import MiningAgent.Toml.Scalar

/-!
# Whole numbers in documents

A whole number stands in decimal digits, with or without a sign, or in one of three other
bases.  Underscores may stand between its digits.  Each of these spellings is a scalar of that
number and nothing else.
-/

namespace MiningAgent.Toml

open Text

/-- A run of characters of one kind ends in front of this text. -/
def EndsRun (kind : Char → Bool) (behind : List Char) : Prop :=
  ∀ char, behind.head? = some char → kind char = false

variable {kind : Char → Bool} {run behind : List Char}

/-- A character of a kind is none of the marks that are not. -/
theorem contains_eq_false {char : Char} {marks : List Char} (inside : kind char)
    (outside : marks.all (!kind ·)) : marks.contains char = false := by
  rw [← Bool.not_eq_true, List.contains_iff_mem]
  intro member
  have unlike := List.all_eq_true.mp outside char member
  rw [inside] at unlike
  cases unlike

theorem endsRun_nil (kind : Char → Bool) : EndsRun kind [] := by
  intro char first
  cases first

theorem endsRun_cons {char : Char} (other : kind char = false)
    (rest : List Char) : EndsRun kind (char :: rest) := by
  intro first same
  cases same
  exact other

theorem endsRun_append {front : List Char}
    (other : ∀ char ∈ front, kind char = false) (ends : EndsRun kind behind) :
    EndsRun kind (front ++ behind) := by
  cases front with
  | nil => exact ends
  | cons first others => exact endsRun_cons (other first List.mem_cons_self) _

theorem takeWhile_run (all : ∀ char ∈ run, kind char) (ends : EndsRun kind behind) :
    (run ++ behind).takeWhile kind = run := by
  rw [List.takeWhile_append_of_pos all]
  cases behind with
  | nil => rw [List.takeWhile_nil, List.append_nil]
  | cons char rest =>
      rw [List.takeWhile_cons_of_neg (by simp [ends char rfl]), List.append_nil]

theorem dropWhile_run (all : ∀ char ∈ run, kind char) (ends : EndsRun kind behind) :
    (run ++ behind).dropWhile kind = behind := by
  rw [List.dropWhile_append_of_pos all]
  cases behind with
  | nil => rfl
  | cons char rest => exact List.dropWhile_cons_of_neg (by simp [ends char rfl])

/-- Digits with underscores between some of them. -/
inductive Groups : List Char → List Char → Prop
  | last (digit : Char) : Groups [digit] [digit]
  | next {digits spelled : List Char} (digit : Char) (others : Groups digits spelled) :
      Groups (digit :: digits) (digit :: spelled)
  | gap {digits spelled : List Char} (digit : Char) (others : Groups digits spelled) :
      Groups (digit :: digits) (digit :: '_' :: spelled)

namespace Groups

variable {digits spelled : List Char}

theorem refl (filled : digits ≠ []) : Groups digits digits := by
  induction digits with
  | nil => exact absurd rfl filled
  | cons digit rest hypothesis =>
      cases rest with
      | nil => exact .last digit
      | cons second later => exact .next digit (hypothesis (List.cons_ne_nil _ _))

theorem exists_head (groups : Groups digits spelled) :
    ∃ digit others, spelled = digit :: others ∧ digit ∈ digits := by
  cases groups with
  | last digit => exact ⟨digit, [], rfl, List.mem_cons_self⟩
  | next digit others => exact ⟨digit, _, rfl, List.mem_cons_self⟩
  | gap digit others => exact ⟨digit, _, rfl, List.mem_cons_self⟩

theorem mem_or_eq (groups : Groups digits spelled) {char : Char} (member : char ∈ spelled) :
    char ∈ digits ∨ char = '_' := by
  induction groups with
  | last digit => exact .inl member
  | next digit others hypothesis =>
      rcases List.mem_cons.mp member with rfl | later
      · exact .inl List.mem_cons_self
      · exact (hypothesis later).imp_left (List.mem_cons_of_mem _)
  | gap digit others hypothesis =>
      rcases List.mem_cons.mp member with rfl | later
      · exact .inl List.mem_cons_self
      · rcases List.mem_cons.mp later with rfl | last
        · exact .inr rfl
        · exact (hypothesis last).imp_left (List.mem_cons_of_mem _)

theorem ungroup?_eq (groups : Groups digits spelled) (all : ∀ digit ∈ digits, kind digit)
    (apart : kind '_' = false) : ungroup? kind spelled = some digits := by
  induction groups with
  | last digit => simp [ungroup?, all]
  | @next digits spelled digit others hypothesis =>
      obtain ⟨first, rest⟩ := List.forall_mem_cons.mp all
      obtain ⟨second, later, rfl, member⟩ := others.exists_head
      have plain : second ≠ '_' := by
        rintro rfl
        exact absurd (rest _ member) (by simp [apart])
      simp [ungroup?, plain, first, hypothesis rest]
  | gap digit others hypothesis =>
      obtain ⟨first, rest⟩ := List.forall_mem_cons.mp all
      simp [ungroup?, first, hypothesis rest]

end Groups

theorem valueIn_append (front : List Char) (digit : Char) :
    valueIn 10 (front ++ [digit]) = valueIn 10 front * 10 + valueIn 10 [digit] := by
  simp [valueIn]

theorem valueIn_decimal (number : Nat) : valueIn 10 (decimal number) = number := by
  induction number using Nat.strongRecOn with
  | _ number hypothesis =>
      have last (digit : Nat) (small : digit < 10) : valueIn 10 [Nat.digitChar digit] = digit := by
        simp [valueIn, hexDigit?_digitChar (by omega : digit < 16)]
      by_cases small : number < 10
      · rw [decimal, Nat.toDigits_of_lt_base small, last number small]
      · have front := hypothesis (number / 10) (by omega)
        rw [decimal_eq_append (by omega), valueIn_append, front, last _ (by omega)]
        omega

/-- The decimal digits of a number: a zero is in front of no others. -/
def SpellsDecimal (number : Nat) (spelled : List Char) : Prop :=
  ∃ digits, Groups digits spelled ∧ (∀ digit ∈ digits, isDigit digit) ∧
    (digits.head? ≠ some '0' ∨ digits.length = 1) ∧ valueIn 10 digits = number

namespace SpellsDecimal

variable {number : Nat} {spelled : List Char}

theorem decimal (number : Nat) : SpellsDecimal number (decimal number) := by
  refine ⟨_, .refl (decimal_ne_nil number), fun _ => isDigit_of_mem_decimal, ?_,
    valueIn_decimal number⟩
  cases number with
  | zero => exact .inr rfl
  | succ smaller => exact .inl (decimal_head_ne_zero (Nat.succ_pos smaller))

theorem exists_digits (spells : SpellsDecimal number spelled) :
    ∃ digits, decimalDigits? spelled = some digits ∧ valueIn 10 digits = number := by
  obtain ⟨digits, groups, all, canonical, means⟩ := spells
  refine ⟨digits, ?_, means⟩
  rw [decimalDigits?, groups.ungroup?_eq all rfl, Option.filter_some]
  simp [canonical]

theorem isDigit_or_eq (spells : SpellsDecimal number spelled) {char : Char}
    (member : char ∈ spelled) : isDigit char ∨ char = '_' := by
  obtain ⟨digits, groups, all, -⟩ := spells
  exact (groups.mem_or_eq member).imp_left (all char)

theorem exists_head (spells : SpellsDecimal number spelled) :
    ∃ digit others, spelled = digit :: others ∧ isDigit digit := by
  obtain ⟨digits, groups, all, -⟩ := spells
  obtain ⟨digit, others, rfl, member⟩ := groups.exists_head
  exact ⟨digit, others, rfl, all digit member⟩

theorem not_mem (spells : SpellsDecimal number spelled) {char : Char}
    (digitless : isDigit char = false) (joining : char ≠ '_') : char ∉ spelled := by
  intro member
  rcases spells.isDigit_or_eq member with digit | joins
  · rw [digitless] at digit
    cases digit
  · exact joining joins

theorem splitSign_eq (spells : SpellsDecimal number spelled) :
    splitSign spelled = (none, spelled) := by
  obtain ⟨digit, others, rfl, digits⟩ := spells.exists_head
  unfold splitSign
  split
  · rename_i same
    cases same
    cases digits
  · rename_i same
    cases same
    cases digits
  · rfl

end SpellsDecimal

/-- A letter that marks a base, behind a zero. -/
def IsBaseMark (mark : Char) (base : Nat) : Prop :=
  (mark, base) ∈ [('x', 16), ('o', 8), ('b', 2)]

instance (mark : Char) (base : Nat) : Decidable (IsBaseMark mark base) :=
  inferInstanceAs (Decidable (_ ∈ _))

/-- The ways in which a whole number stands in a document. -/
inductive SpellsInteger (number : Int) : List Char → Prop
  | plain {magnitude : Nat} {spelled : List Char} (decimal : SpellsDecimal magnitude spelled)
      (means : number = magnitude) : SpellsInteger number spelled
  | plus {magnitude : Nat} {spelled : List Char} (decimal : SpellsDecimal magnitude spelled)
      (means : number = magnitude) : SpellsInteger number ('+' :: spelled)
  | minus {magnitude : Nat} {spelled : List Char} (decimal : SpellsDecimal magnitude spelled)
      (means : number = -magnitude) : SpellsInteger number ('-' :: spelled)
  | based {mark : Char} {base : Nat} {digits spelled : List Char} (marked : IsBaseMark mark base)
      (groups : Groups digits spelled) (all : ∀ digit ∈ digits, isDigitIn base digit)
      (means : number = valueIn base digits) : SpellsInteger number ('0' :: mark :: spelled)

/-- The characters of whole numbers. -/
theorem isScalarChar_of_isDigit {char : Char} (digit : isDigit char) : isScalarChar char := by
  simp [isScalarChar, digit]

theorem isScalarChar_of_isDigitIn {base : Nat} {char : Char} (digit : isDigitIn base char) :
    isScalarChar char := by
  rw [isDigitIn, Option.any_eq_true] at digit
  obtain ⟨value, valued, -⟩ := digit
  unfold hexDigit? at valued
  split at valued
  · rename_i decimal
    exact isScalarChar_of_isDigit decimal
  · split at valued
    · rename_i lower
      have high : char ≤ 'z' := Char.le_trans lower.2 (by decide)
      simp [isScalarChar, lower.1, high]
    · split at valued
      · rename_i upper
        have high : char ≤ 'Z' := Char.le_trans upper.2 (by decide)
        simp [isScalarChar, upper.1, high]
      · cases valued

theorem ne_minus_of_isDigitIn {base : Nat} {char : Char} (digit : isDigitIn base char) :
    char ≠ '-' := by
  rintro rfl
  cases digit

namespace SpellsInteger

variable {number : Int} {spelled : List Char}

theorem exists_head (spells : SpellsInteger number spelled) :
    ∃ first others, spelled = first :: others ∧
      (isDigit first ∨ first = '+' ∨ first = '-') := by
  cases spells with
  | plain decimal means =>
      obtain ⟨digit, others, rfl, digits⟩ := decimal.exists_head
      exact ⟨digit, others, rfl, .inl digits⟩
  | plus decimal means => exact ⟨'+', _, rfl, .inr (.inl rfl)⟩
  | minus decimal means => exact ⟨'-', _, rfl, .inr (.inr rfl)⟩
  | based marked groups all means => exact ⟨'0', _, rfl, .inl rfl⟩

/-- What neither signs nor digits are made of does not begin a whole number. -/
theorem endsRun (spells : SpellsInteger number spelled) (unsigned : ['+', '-'].all (!kind ·))
    (outside : ∀ char, isDigit char → kind char = false) (behind : List Char) :
    EndsRun kind (spelled ++ behind) := by
  simp only [List.all_cons, List.all_nil, Bool.and_true, Bool.and_eq_true, Bool.not_eq_true']
    at unsigned
  obtain ⟨first, others, rfl, digit | rfl | rfl⟩ := spells.exists_head
  · exact endsRun_cons (outside first digit) _
  · exact endsRun_cons unsigned.1 _
  · exact endsRun_cons unsigned.2 _

theorem isScalarChar_of_mem (spells : SpellsInteger number spelled) {char : Char}
    (member : char ∈ spelled) : isScalarChar char := by
  have decimals {magnitude : Nat} {digits : List Char} (decimal : SpellsDecimal magnitude digits)
      (member : char ∈ digits) : isScalarChar char := by
    rcases decimal.isDigit_or_eq member with digit | rfl
    · exact isScalarChar_of_isDigit digit
    · rfl
  cases spells with
  | plain decimal means => exact decimals decimal member
  | plus decimal means =>
      rcases List.mem_cons.mp member with rfl | later
      · rfl
      · exact decimals decimal later
  | minus decimal means =>
      rcases List.mem_cons.mp member with rfl | later
      · rfl
      · exact decimals decimal later
  | based marked groups all means =>
      simp only [IsBaseMark, List.mem_cons, Prod.mk.injEq, List.not_mem_nil, or_false] at marked
      rcases List.mem_cons.mp member with rfl | later
      · rfl
      · rcases List.mem_cons.mp later with rfl | last
        · rcases marked with ⟨rfl, -⟩ | ⟨rfl, -⟩ | ⟨rfl, -⟩ <;> rfl
        · rcases groups.mem_or_eq last with digit | rfl
          · exact isScalarChar_of_isDigitIn (all char digit)
          · rfl

/-- A minus stands in front of all else. -/
theorem minus_not_mem_tail (spells : SpellsInteger number spelled) : '-' ∉ spelled.tail := by
  cases spells with
  | plain decimal means =>
      exact fun member => decimal.not_mem rfl (by decide) (List.mem_of_mem_tail member)
  | plus decimal means => exact decimal.not_mem rfl (by decide)
  | minus decimal means => exact decimal.not_mem rfl (by decide)
  | based marked groups all means =>
      intro member
      simp only [IsBaseMark, List.mem_cons, Prod.mk.injEq, List.not_mem_nil, or_false] at marked
      rcases List.mem_cons.mp member with rfl | later
      · simp at marked
      · rcases groups.mem_or_eq later with digit | joins
        · exact ne_minus_of_isDigitIn (all _ digit) rfl
        · cases joins

theorem isDate_eq (spells : SpellsInteger number spelled) : isDate spelled = false := by
  have undashed := spells.minus_not_mem_tail
  unfold isDate
  split
  · simp at undashed
  · rfl

theorem wholeNumber?_eq (spells : SpellsInteger number spelled) :
    wholeNumber? spelled = some number := by
  cases spells with
  | plain decimal means =>
      obtain ⟨digits, read, rfl⟩ := decimal.exists_digits
      have hexadecimal : 'x' ∉ spelled := decimal.not_mem rfl (by decide)
      have octal : 'o' ∉ spelled := decimal.not_mem rfl (by decide)
      have binary : 'b' ∉ spelled := decimal.not_mem rfl (by decide)
      unfold wholeNumber?
      split
      · simp at hexadecimal
      · simp at octal
      · simp at binary
      · simp [decimal.splitSign_eq, read, means]
  | plus decimal means =>
      obtain ⟨digits, read, rfl⟩ := decimal.exists_digits
      simp [wholeNumber?, splitSign, read, means]
  | minus decimal means =>
      obtain ⟨digits, read, rfl⟩ := decimal.exists_digits
      simp [wholeNumber?, splitSign, read, means]
  | based marked groups all means =>
      simp only [IsBaseMark, List.mem_cons, Prod.mk.injEq, List.not_mem_nil, or_false] at marked
      rcases marked with ⟨rfl, rfl⟩ | ⟨rfl, rfl⟩ | ⟨rfl, rfl⟩
      all_goals simp [wholeNumber?, basedNumber?, groups.ungroup?_eq all rfl, means]

theorem scalarOf?_eq (spells : SpellsInteger number spelled) (fits : fitsSigned number) :
    scalarOf? spelled = some (.integer number) := by
  have whole := spells.wholeNumber?_eq
  have notTrue : spelled ≠ ['t', 'r', 'u', 'e'] := by
    rintro rfl
    cases whole
  have notFalse : spelled ≠ ['f', 'a', 'l', 's', 'e'] := by
    rintro rfl
    cases whole
  rw [scalarOf?, if_neg notTrue, if_neg notFalse, whole]
  exact if_pos fits

/-- A whole number is read up to the first character that could not belong to it. -/
theorem readScalar_eq (spells : SpellsInteger number spelled) (fits : fitsSigned number)
    (ends : EndsRun isScalarChar behind) :
    readScalar (spelled ++ behind) = some (.integer number, behind) := by
  have all : ∀ char ∈ spelled, isScalarChar char := fun _ => spells.isScalarChar_of_mem
  have undated : ¬ (isDate spelled = true ∧ isTimeGap behind = true) := by
    simp [spells.isDate_eq]
  simp only [readScalar, takeWhile_run all ends, dropWhile_run all ends]
  rw [if_neg undated, spells.scalarOf?_eq fits]
  rfl

end SpellsInteger

/-- An integer as it is printed. -/
def integerText (number : Int) : List Char :=
  if number < 0 then '-' :: decimal number.natAbs else decimal number.natAbs

theorem spellsInteger_integerText (number : Int) : SpellsInteger number (integerText number) := by
  unfold integerText
  split
  · exact .minus (.decimal _) (by omega)
  · exact .plain (.decimal _) (by omega)

end MiningAgent.Toml
