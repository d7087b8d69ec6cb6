import MiningAgent.Proofs.Json.Spelling
import Mathlib.Data.List.Basic
import Mathlib.Data.List.TakeWhile

/-!
# Whole numbers in digits

A whole number is written by its decimal digits alone, with a sign in front of them if it
has one.  Whoever checks how a numeral is spelled accepts them, and whoever adds up the
digits gets the number back.
-/

namespace MiningAgent

namespace Text

theorem isDigit_of_mem_decimal {number : Nat} {char : Char} (member : char ∈ decimal number) :
    isDigit char := by
  have digit : char.isDigit = true := Nat.isDigit_of_mem_toDigits (by omega) (by omega) member
  simpa [isDigit, Char.isDigit, Char.le_def] using digit

theorem decimal_ne_nil (number : Nat) : decimal number ≠ [] :=
  Nat.toDigits_ne_nil

/-- Only zero itself begins with a zero. -/
theorem decimal_head_ne_zero {number : Nat} (positive : 0 < number) :
    (decimal number).head? ≠ some '0' := by
  induction number using Nat.strongRecOn with
  | _ number hypothesis =>
      by_cases small : number < 10
      · have every : ∀ digit : Fin 10, 0 < digit.val → Nat.digitChar digit ≠ '0' := by decide
        rw [decimal, Nat.toDigits_of_lt_base small]
        simpa using every ⟨number, small⟩ positive
      · have front := hypothesis (number / 10) (by omega) (by omega)
        rw [decimal_eq_append (by omega), List.head?_append_of_ne_nil _ (decimal_ne_nil _)]
        exact front

namespace Numeral

theorem digitsValue_append (front : List Char) (digit : Char) :
    digitsValue (front ++ [digit]) = digitsValue front * 10 + digitsValue [digit] := by
  simp [digitsValue]

theorem digitsValue_digitChar {digit : Nat} (small : digit < 10) :
    digitsValue [Nat.digitChar digit] = digit := by
  have every : ∀ digit : Fin 10, digitsValue [Nat.digitChar digit] = digit.val := by decide
  exact every ⟨digit, small⟩

theorem digitsValue_decimal (number : Nat) : digitsValue (decimal number) = number := by
  induction number using Nat.strongRecOn with
  | _ number hypothesis =>
      by_cases small : number < 10
      · rw [decimal, Nat.toDigits_of_lt_base small, digitsValue_digitChar small]
      · have front := hypothesis (number / 10) (by omega)
        rw [decimal_eq_append (by omega), digitsValue_append, front,
          digitsValue_digitChar (by omega)]
        omega

@[simp] theorem natural?_ofNat (number : Nat) : (ofNat number).natural? = some number := by
  have value : digitsValue (Nat.toDigits 10 number) = number := digitsValue_decimal number
  simp [natural?, ofNat, value]

end Numeral

end Text

namespace Json

open Text Text.Numeral

/-- The digits of a whole number are spelled as a number has to be, with a sign in front of
them or without one. -/
theorem numeral?_integer (negative : Bool) (magnitude : Nat) :
    numeral? ((if negative then ['-'] else []) ++ decimal magnitude) =
      some (.ofInteger negative magnitude) := by
  have digits : ∀ char ∈ decimal magnitude, isDigit char := fun _ => isDigit_of_mem_decimal
  have unsigned : (decimal magnitude).head? ≠ some '-' := fun sign =>
    absurd (digits '-' (List.mem_of_head? sign)) (by decide)
  have taken : (decimal magnitude).takeWhile isDigit = decimal magnitude :=
    List.takeWhile_eq_self_iff.mpr digits
  have left : (decimal magnitude).dropWhile isDigit = [] :=
    List.dropWhile_eq_nil_iff.mpr digits
  have spelled : ¬ (decimal magnitude = [] ∨
      ((decimal magnitude).head? = some '0' ∧ (decimal magnitude).length ≠ 1)) := by
    rintro (empty | ⟨zero, long⟩)
    · exact decimal_ne_nil magnitude empty
    · cases magnitude with
      | zero => exact long rfl
      | succ smaller => exact decimal_head_ne_zero (Nat.succ_pos smaller) zero
  cases negative with
  | true =>
      simp only [numeral?, if_true, List.cons_append, List.nil_append, List.head?_cons,
        decide_true, List.drop_succ_cons, List.drop_zero, taken, left, spelled, if_false]
      rfl
  | false =>
      simp only [numeral?, Bool.false_eq_true, List.nil_append, unsigned, decide_false, if_false,
        taken, left, spelled]
      rfl

end Json

end MiningAgent
