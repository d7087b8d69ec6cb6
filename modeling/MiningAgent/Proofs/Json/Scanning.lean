import MiningAgent.Proofs.Json.Digits
import MiningAgent.Proofs.Json.Spelling

/-!
# Scanning what is spelled

However a row of tokens is spelled, its text is cut into these tokens again.  A word and
a number end only where something else begins, which a mark and white space do.
-/

namespace MiningAgent.Json

/-- A character that belongs to no word and to no number, and the token it is if it is
not a blank. -/
structure Delimits (char : Char) (tokens : List Token) : Prop where
  endsWords : isLetter char = false
  endsNumbers : continuesNumber char = false
  opens : ∀ found, Scan.open? found char = some ⟨tokens.reverse ++ found, .nothing⟩

namespace Delimits

theorem ofBlank {char : Char} (white : char ∈ blanks) : Delimits char [] := by
  simp only [blanks, List.mem_cons, List.not_mem_nil, or_false] at white
  rcases white with rfl | rfl | rfl | rfl <;> exact ⟨rfl, rfl, fun _ => rfl⟩

theorem ofMark {char : Char} {token : Token} (means : punctuation? char = some token) :
    Delimits char [token] := by
  unfold punctuation? at means
  split at means <;> cases means <;> exact ⟨rfl, rfl, fun _ => rfl⟩

theorem step {char : Char} {mark found : List Token} {scan : Scan}
    (delimits : Delimits char mark) (closed : scan.close = some ⟨found, .nothing⟩) :
    scan.step char = some ⟨mark.reverse ++ found, .nothing⟩ := by
  obtain ⟨endsWords, endsNumbers, opens⟩ := delimits
  obtain ⟨tokens, inside⟩ := scan
  cases inside with
  | nothing =>
      cases closed
      exact opens _
  | word letters => simp [Scan.step, endsWords, closed, opens]
  | number chars => simp [Scan.step, endsNumbers, closed, opens]
  | text parts => simp [Scan.close] at closed
  | escape parts => simp [Scan.close] at closed
  | hex parts count code => simp [Scan.close] at closed

end Delimits

theorem digit_opens {char : Char} (digit : Text.isDigit char) (found : List Token) :
    Scan.open? found char = some ⟨found, .number [char]⟩ := by
  have noBlank : isSpace char = false := by
    by_contra blank
    simp only [isSpace, Bool.not_eq_false, Bool.or_eq_true, decide_eq_true_eq] at blank
    rcases blank with ((rfl | rfl) | rfl) | rfl <;> exact absurd digit (by decide)
  have noQuote : char ≠ '"' := by
    rintro rfl
    exact absurd digit (by decide)
  simp [Scan.open?, startsNumber, noBlank, noQuote, digit]

/-- Digits are collected as long as they come. -/
theorem digits_collected {digits : List Char} (each : ∀ digit ∈ digits, Text.isDigit digit)
    (found : List Token) (chars : List Char) :
    digits.foldlM Scan.step ⟨found, .number chars⟩ =
      some ⟨found, .number (digits.reverse ++ chars)⟩ := by
  induction digits generalizing chars with
  | nil => rfl
  | cons digit rest hypothesis =>
      have continues : continuesNumber digit = true := by
        simp [continuesNumber, each digit (by simp)]
      have others := hypothesis (fun other member => each other (by simp [member]))
        (digit :: chars)
      simp [Scan.step, continues, others]

/-- With its sign or without one, a whole number is one run of characters. -/
theorem integer_collected (negative : Bool) (magnitude : Nat) (found : List Token) :
    ((if negative then ['-'] else []) ++ Text.decimal magnitude).foldlM Scan.step
        ⟨found, .nothing⟩ =
      some ⟨found, .number
        ((if negative then ['-'] else []) ++ Text.decimal magnitude).reverse⟩ := by
  have each : ∀ digit ∈ Text.decimal magnitude, Text.isDigit digit :=
    fun _ => Text.isDigit_of_mem_decimal
  cases negative with
  | true =>
      have opened : Scan.open? found '-' = some ⟨found, .number ['-']⟩ := rfl
      simp [Scan.step, opened, digits_collected each]
  | false =>
      cases shape : Text.decimal magnitude with
      | nil => exact absurd shape (Text.decimal_ne_nil magnitude)
      | cons first rest =>
          rw [shape] at each
          have opened := digit_opens (each first (by simp)) found
          have others : ∀ digit ∈ rest, Text.isDigit digit :=
            fun digit member => each digit (by simp [member])
          simp [Scan.step, opened, digits_collected others]

/-- Behind the digits of a code unit, the code is complete. -/
theorem digits_coded {digits : List Char} {count code unit : Nat} (filled : digits ≠ [])
    (four : count + digits.length = 4) (means : codeBehind? code digits = some unit)
    (found : List Token) (parts : List Part) :
    digits.foldlM Scan.step ⟨found, .hex parts count code⟩ =
      some ⟨found, .text (.codeUnit unit :: parts)⟩ := by
  induction digits generalizing count code with
  | nil => exact absurd rfl filled
  | cons digit rest hypothesis =>
      simp only [codeBehind?, List.foldlM_cons, Option.bind_eq_bind, Option.bind_eq_some_iff,
        Option.map_eq_some_iff] at means
      obtain ⟨_, ⟨value, valued, rfl⟩, means⟩ := means
      simp only [List.length_cons] at four
      cases rest with
      | nil =>
          have last : count = 3 := by simpa using four
          cases means
          simp [Scan.step, valued, last]
      | cons next others =>
          have more : count ≠ 3 := by
            rintro rfl
            simp only [List.length_cons] at four
            omega
          have behind := hypothesis (by simp) (by omega : count + 1 + _ = 4) means
          simpa [Scan.step, valued, more] using behind

theorem SpellsPart.scanned {part : Part} {spelling : List Char}
    (spelled : SpellsPart part spelling) (found : List Token) (parts : List Part) :
    spelling.foldlM Scan.step ⟨found, .text parts⟩ = some ⟨found, .text (part :: parts)⟩ := by
  cases spelled with
  | plain printable unmarked =>
      have noControl := Nat.not_lt.mpr printable
      simp [Scan.step, unmarked, noControl]
  | @short char mark means =>
      have noCode : mark ≠ 'u' := by
        rintro rfl
        cases means
      simp [Scan.step, noCode, means]
  | @code code digits four means =>
      have filled : digits ≠ [] := by
        rintro rfl
        simp at four
      have coded := digits_coded filled (by omega : 0 + digits.length = 4) means found parts
      simpa [Scan.step] using coded

theorem SpellsParts.scanned {parts : List Part} {spelled : List Char}
    (spells : SpellsParts parts spelled) (found : List Token) (earlier : List Part) :
    spelled.foldlM Scan.step ⟨found, .text earlier⟩ =
      some ⟨found, .text (parts.reverse ++ earlier)⟩ := by
  induction spells generalizing earlier with
  | nil => rfl
  | cons first _ hypothesis => simp [List.foldlM_append, first.scanned, hypothesis]

theorem SpellsToken.exists_mark {token : Token} {spelling : List Char}
    (spelled : SpellsToken token spelling) (marked : token.isMark) :
    ∃ char, spelling = [char] ∧ punctuation? char = some token := by
  cases spelled with
  | mark means => exact ⟨_, rfl, means⟩
  | null => cases marked
  | false => cases marked
  | true => cases marked
  | integer negative magnitude => cases marked
  | text spells => cases marked

theorem SpellsToken.scanned {token : Token} {spelling : List Char}
    (spelled : SpellsToken token spelling) (found : List Token) :
    (spelling.foldlM Scan.step ⟨found, .nothing⟩).bind Scan.close =
      some ⟨token :: found, .nothing⟩ := by
  cases spelled with
  | mark means => simp [Scan.step, (Delimits.ofMark means).opens, Scan.close]
  | null => rfl
  | false => rfl
  | true => rfl
  | integer negative magnitude =>
      rw [integer_collected]
      simp [Scan.close, numeral?_integer]
  | text spells =>
      have opened : Scan.step ⟨found, .nothing⟩ '"' = some ⟨found, .text []⟩ := rfl
      have inner := spells.scanned found []
      simp only [List.foldlM_cons, List.foldlM_append, opened, inner, Option.bind_eq_bind,
        Option.bind_some]
      simp [Scan.step, Scan.close]

/-- What is still open in front of a row of tokens is closed by the first of them, if that
is a mark. -/
theorem Spells.scanned {tokens : List Token} {text : List Char} (spells : Spells tokens text)
    (parted : Parted tokens) {scan : Scan} {found : List Token}
    (closed : scan.close = some ⟨found, .nothing⟩)
    (free : scan.inside = .nothing ∨ ∀ token ∈ tokens.head?, token.isMark) :
    (text.foldlM Scan.step scan).bind Scan.close = some ⟨tokens.reverse ++ found, .nothing⟩ := by
  have between (found : List Token) : Scan.close ⟨found, .nothing⟩ = some ⟨found, .nothing⟩ := rfl
  induction spells generalizing scan found with
  | nil => simpa using closed
  | blank white _ hypothesis =>
      have stepped := (Delimits.ofBlank white).step closed
      simpa [stepped] using hypothesis parted (between found) (.inl rfl)
  | @token token spelling tokens text first _ hypothesis =>
      obtain ⟨neighbours, parted⟩ := List.isChain_cons.mp parted
      by_cases marked : token.isMark
      · obtain ⟨char, rfl, means⟩ := first.exists_mark marked
        have stepped := (Delimits.ofMark means).step closed
        simpa [stepped] using hypothesis parted (between (token :: found)) (.inl rfl)
      · have nothing : scan = ⟨found, .nothing⟩ := by
          obtain ⟨earlier, inside⟩ := scan
          rcases free with rfl | marks
          · cases closed
            rfl
          · exact absurd (marks token rfl) marked
        obtain ⟨later, run, complete⟩ := Option.bind_eq_some_iff.mp (first.scanned found)
        have others := hypothesis parted complete
          (.inr fun other here => (neighbours other here).resolve_left marked)
        rw [nothing, List.foldlM_append, run]
        simpa using others

theorem Spells.tokens?_eq {tokens : List Token} {text : List Char} (spells : Spells tokens text)
    (parted : Parted tokens) : tokens? text = some tokens := by
  have scanned := spells.scanned parted (rfl : Scan.start.close = some ⟨[], .nothing⟩) (.inl rfl)
  simp [tokens?, scanned]

end MiningAgent.Json
