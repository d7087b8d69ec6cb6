import MiningAgent.Toml.Printer
import MiningAgent.Toml.Scalar
import Mathlib.Tactic.ByContra

/-!
# Strings in documents

Between double quotes a character stands for itself, behind a backslash, or by its code
point.  Whichever way each one is spelled, the reader makes the same text of them.
-/

namespace MiningAgent.Toml

variable {char mark : Char} {digits spelling spelled text read rest : List Char}

/-- The digits of a code point behind the mark that tells how many there are. -/
def IsCodeMark (mark : Char) (count : Nat) : Prop :=
  mark = 'u' ∧ count = 4 ∨ mark = 'U' ∧ count = 8

/-- The ways in which a character stands between double quotes. -/
inductive SpellsChar (char : Char) : List Char → Prop
  | plain (ordinary : Quote.double.isPlain char) : SpellsChar char [char]
  | short {mark : Char} (means : shortEscape? mark = some char) : SpellsChar char ['\\', mark]
  | code {mark : Char} {digits : List Char} (counted : IsCodeMark mark digits.length)
      (hexadecimal : ∀ digit ∈ digits, isDigitIn 16 digit)
      (means : valueIn 16 digits = char.toNat) : SpellsChar char ('\\' :: mark :: digits)

theorem beginEscape_short (means : shortEscape? mark = some char) :
    beginEscape mark = some (.inr char) := by
  have notShort : mark ≠ 'u' := by
    rintro rfl
    cases means
  have notLong : mark ≠ 'U' := by
    rintro rfl
    cases means
  rw [beginEscape, if_neg notShort, if_neg notLong, means]
  rfl

theorem beginEscape_code {count : Nat} (counted : IsCodeMark mark count) :
    beginEscape mark = some (.inl (.code count 0)) := by
  rcases counted with ⟨rfl, rfl⟩ | ⟨rfl, rfl⟩ <;> rfl

theorem scalar?_toNat (char : Char) : scalar? char.toNat = some char := by
  have valid : char.toNat.isValidChar := char.valid
  rw [scalar?, if_pos valid, Char.ofNat_toNat]

/-- The digits of a code point, some of which may have been read before. -/
theorem readLine_code {value : Nat} (filled : digits ≠ [])
    (hexadecimal : ∀ digit ∈ digits, isDigitIn 16 digit)
    (means : digits.foldl (fun value digit => value * 16 + (Text.hexDigit? digit).getD 0) value =
      char.toNat) :
    readLine .double (.code digits.length value) read (digits ++ rest) =
      readLine .double .text (char :: read) rest := by
  induction digits generalizing value with
  | nil => exact absurd rfl filled
  | cons digit later hypothesis =>
      have known := hexadecimal digit List.mem_cons_self
      obtain ⟨number, valued⟩ : ∃ number, Text.hexDigit? digit = some number := by
        rw [isDigitIn, Option.any_eq_true] at known
        obtain ⟨number, valued, -⟩ := known
        exact ⟨number, valued⟩
      rw [List.foldl_cons, valued, Option.getD_some] at means
      cases later with
      | nil =>
          have meant : scalar? (value * 16 + number) = some char := by
            rw [← scalar?_toNat char, ← means]
            rfl
          simp [readLine, continueCode, valued, meant]
      | cons next others =>
          have behind := hypothesis (by simp)
            (fun digit member => hexadecimal digit (List.mem_cons_of_mem _ member)) means
          have several : ¬ (next :: others).length + 1 ≤ 1 := by simp
          simp only [List.length_cons, List.cons_append] at behind several ⊢
          simp only [readLine, continueCode, valued, Option.bind_some, if_neg several,
            Nat.add_sub_cancel]
          exact behind

theorem readLine_spellsChar (spells : SpellsChar char spelling) :
    readLine .double .text read (spelling ++ rest) =
      readLine .double .text (char :: read) rest := by
  cases spells with
  | plain ordinary =>
      have unquoted : char ≠ '"' := by
        rintro rfl
        cases ordinary
      simp [readLine, Quote.double, unquoted, show Quote.isPlain ⟨'"', true⟩ char from ordinary]
  | short means =>
      have escape := beginEscape_short means
      simp [readLine, Quote.double, Quote.isPlain, escape]
  | @code mark digits counted hexadecimal means =>
      have filled : digits ≠ [] := by
        rintro rfl
        rcases counted with ⟨-, absurd⟩ | ⟨-, absurd⟩ <;> cases absurd
      have coded : readLine .double (.code digits.length 0) read (digits ++ rest) =
          readLine .double .text (char :: read) rest := readLine_code filled hexadecimal means
      have escape := beginEscape_code counted
      simpa [readLine, Quote.double, Quote.isPlain, escape] using coded

/-- No spelling begins with a quote. -/
theorem SpellsChar.exists_head (spells : SpellsChar char spelling) :
    ∃ first others, spelling = first :: others ∧ first ≠ '"' := by
  cases spells with
  | plain ordinary =>
      refine ⟨char, [], rfl, ?_⟩
      rintro rfl
      cases ordinary
  | short means => exact ⟨'\\', _, rfl, by decide⟩
  | code counted hexadecimal means => exact ⟨'\\', _, rfl, by decide⟩

/-- A text, each character spelled in one of its ways. -/
inductive SpellsText : List Char → List Char → Prop
  | nil : SpellsText [] []
  | cons {char : Char} {spelling text spelled : List Char} (first : SpellsChar char spelling)
      (others : SpellsText text spelled) : SpellsText (char :: text) (spelling ++ spelled)

theorem readLine_spellsText (spells : SpellsText text spelled) :
    readLine .double .text read (spelled ++ '"' :: rest) = some (read.reverse ++ text, rest) := by
  induction spells generalizing read with
  | nil => simp [readLine, Quote.double]
  | cons first others hypothesis =>
      rw [List.append_assoc, readLine_spellsChar first, hypothesis]
      simp

/-- The spelled text is not taken for the two quotes that begin a string of several lines. -/
theorem SpellsText.take_ne_quotes (spells : SpellsText text spelled)
    (single : rest.head? ≠ some '"') : (spelled ++ '"' :: rest).take 2 ≠ ['"', '"'] := by
  cases spells with
  | nil =>
      cases rest with
      | nil => simp
      | cons next later => simpa using single
  | cons first others =>
      obtain ⟨front, behind, rfl, unquoted⟩ := first.exists_head
      intro quotes
      simp at quotes
      exact unquoted quotes.1

theorem readString_spellsText (spells : SpellsText text spelled)
    (single : rest.head? ≠ some '"') :
    readString .double (spelled ++ '"' :: rest) = some (text, rest) := by
  have oneLine : (spelled ++ '"' :: rest).take 2 ≠ [Quote.double.mark, Quote.double.mark] :=
    spells.take_ne_quotes single
  rw [readString, if_neg oneLine, readLine_spellsText spells]
  rfl

theorem spellsChar_escapeChar (char : Char) : SpellsChar char (escapeChar char) := by
  unfold escapeChar
  split
  · rename_i special
    rcases special with rfl | rfl
    · exact .short rfl
    · exact .short rfl
  · rename_i ordinary
    split
    · rename_i printable
      refine .plain ?_
      simp only [not_or] at ordinary
      simp [Quote.isPlain, Quote.double, ordinary, printable]
    · rename_i unprintable
      have small : char.toNat < 128 := by
        by_contra large
        refine unprintable ?_
        have apart : char.toNat ≠ 0x7F := by omega
        have shown : 0x20 ≤ char.toNat := by omega
        simp [isPrintable, apart, shown]
      have high := Text.hexDigit?_digitChar (by omega : char.toNat / 16 < 16)
      have low := Text.hexDigit?_digitChar (by omega : char.toNat % 16 < 16)
      have zero : Text.hexDigit? '0' = some 0 := by decide
      rw [Decimal.padded_ascii small]
      refine .code (.inl ⟨rfl, rfl⟩) ?_ ?_
      · intro digit member
        simp only [List.mem_cons, List.not_mem_nil, or_false] at member
        rcases member with rfl | rfl | rfl | rfl
        · simp [isDigitIn, zero]
        · simp [isDigitIn, zero]
        · simp [isDigitIn, high]
          omega
        · simp [isDigitIn, low]
          omega
      · simp [valueIn, zero, high, low]
        omega

theorem spellsText_escaped (text : List Char) : SpellsText text (text.flatMap escapeChar) := by
  induction text with
  | nil => exact .nil
  | cons char others hypothesis => exact .cons (spellsChar_escapeChar char) hypothesis

end MiningAgent.Toml
