import MiningAgent.Proofs.Json.Digits
import MiningAgent.Settings.Variables

/-!
# Values of variables

What a host writes into a variable is trimmed and parsed.  Numbers in digits and levels by
their names come back as they were.
-/

namespace MiningAgent

namespace Text

/-- There is nothing to trim from a text without blanks. -/
theorem trim_eq_self {text : List Char} (solid : ∀ char ∈ text, isBlank char = false) :
    trim text = text := by
  have front : text.dropWhile isBlank = text := by
    refine List.dropWhile_eq_self_iff.mpr fun long => ?_
    rw [Bool.not_eq_true]
    exact solid _ (List.getElem_mem long)
  have back : text.reverse.dropWhile isBlank = text.reverse := by
    refine List.dropWhile_eq_self_iff.mpr fun long => ?_
    rw [Bool.not_eq_true]
    exact solid _ (List.mem_reverse.mp (List.getElem_mem long))
  rw [trim, front, back, List.reverse_reverse]

theorem isBlank_of_isDigit {char : Char} (digit : isDigit char) : isBlank char = false := by
  simp only [isDigit, Bool.and_eq_true, decide_eq_true_eq, Char.le_def, UInt32.le_iff_toNat_le]
    at digit
  have low : 48 ≤ char.toNat := digit.1
  have high : char.toNat ≤ 57 := digit.2
  simp only [isBlank, Bool.or_eq_false_iff, Bool.and_eq_false_iff, decide_eq_false_iff_not]
  omega

theorem trim_decimal (number : Nat) : trim (decimal number) = decimal number :=
  trim_eq_self fun _ member => isBlank_of_isDigit (isDigit_of_mem_decimal member)

end Text

namespace Settings

theorem parseLong_spelled (number : UInt64) :
    parseLong (Text.trim (String.ofList (Text.decimal number.toNat)).toList) = .ok number := by
  have fits : number.toNat ≤ Text.maxLong := Nat.le_of_lt_succ number.toNat_lt
  rw [String.toList_ofList, Text.trim_decimal, parseLong, Text.readLong,
    Text.readNumber_decimal fits]
  simp [Except.map, Except.mapError]

theorem parseWord_spelled (number : UInt32) :
    parseWord (Text.trim (String.ofList (Text.decimal number.toNat)).toList) = .ok number := by
  have fits : number.toNat ≤ Text.maxWord := Nat.le_of_lt_succ number.toNat_lt
  rw [String.toList_ofList, Text.trim_decimal, parseWord, Text.readWord,
    Text.readNumber_decimal fits]
  simp [Except.map, Except.mapError]

theorem parseLevel_spelled (level : LogLevel) :
    parseLevel (Text.trim level.name.toList) = .ok level := by
  cases level <;> decide

end Settings

namespace Environment

variable {α : Type} {parse : List Char → Except ValueFault α} {environment other : Environment}
  {setting : Variable}

theorem read_congr (same : other setting = environment setting) :
    other.read parse setting = environment.read parse setting := by
  rw [read, read, same]

theorem read_spelled {text : String} {value : α}
    (spelled : parse (Text.trim text.toList) = .ok value) (set : environment setting = some text) :
    environment.read parse setting = .ok (some value) := by
  rw [read, set]
  simp only [spelled]

end Environment

end MiningAgent
