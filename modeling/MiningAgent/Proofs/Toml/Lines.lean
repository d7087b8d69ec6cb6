import MiningAgent.Proofs.Toml.Scalars
import MiningAgent.Proofs.Toml.Strings
import MiningAgent.Toml.Reader

/-!
# Lines of documents

A line assigns a value to a key or holds nothing but a comment.  Blanks may stand in front
of each of its parts and behind them all.  The reader takes exactly one line off the front
of a text.
-/

namespace MiningAgent.Toml

variable {margin behind rest spelling name : List Char} {key : Key} {value : Value}

/-- A text at the end of a line, and the lines behind it. -/
inductive EndsLine : List Char → List Char → Prop
  | feed (rest : List Char) : EndsLine ('\n' :: rest) rest
  | carriage (rest : List Char) : EndsLine ('\r' :: '\n' :: rest) rest
  | last : EndsLine [] []

/-- Blanks, and perhaps a comment behind them. -/
inductive Margin : List Char → Prop
  | blank {blanks : List Char} (blank : ∀ char ∈ blanks, isBlank char) : Margin blanks
  | comment {blanks comment : List Char} (blank : ∀ char ∈ blanks, isBlank char)
      (printable : ∀ char ∈ comment, isPrintable char) : Margin (blanks ++ '#' :: comment)

theorem blank_cases {char : Char} (blank : isBlank char) : char = ' ' ∨ char = '\t' := by
  simpa [isBlank] using blank

theorem EndsLine.endsRun (ends : EndsLine behind rest) {kind : Char → Bool}
    (feed : kind '\n' = false) (carriage : kind '\r' = false) : EndsRun kind behind := by
  cases ends with
  | feed => exact endsRun_cons feed _
  | carriage => exact endsRun_cons carriage _
  | last => exact endsRun_nil kind

/-- What begins no blank, no comment and no line break cannot continue in a margin. -/
theorem Margin.endsRun (margined : Margin margin) (ends : EndsLine behind rest)
    {kind : Char → Bool} (outside : [' ', '\t', '#', '\n', '\r'].all (!kind ·)) :
    EndsRun kind (margin ++ behind) := by
  simp only [List.all_cons, List.all_nil, Bool.and_true, Bool.and_eq_true, Bool.not_eq_true']
    at outside
  obtain ⟨space, tab, hash, feed, carriage⟩ := outside
  have blankless : ∀ char, isBlank char → kind char = false := by
    intro char blank
    rcases blank_cases blank with rfl | rfl
    · exact space
    · exact tab
  have ended : EndsRun kind behind := ends.endsRun feed carriage
  cases margined with
  | blank blank =>
      exact endsRun_append (fun char member => blankless char (blank char member)) ended
  | comment blank printable =>
      rw [List.append_assoc]
      refine endsRun_append (fun char member => blankless char (blank char member)) ?_
      exact endsRun_cons hash _

theorem newline?_endsLine (ends : EndsLine behind rest) :
    (if behind = [] then some [] else newline? behind) = some rest := by
  cases ends with
  | feed => rfl
  | carriage => rfl
  | last => rfl

/-- Nothing of the line is left behind a margin. -/
theorem nextLine?_margin (margined : Margin margin) (ends : EndsLine behind rest) :
    nextLine? (margin ++ behind) = some rest := by
  have unblank : EndsRun isBlank behind := ends.endsRun rfl rfl
  have unprintable : EndsRun isPrintable behind := ends.endsRun rfl rfl
  have left := newline?_endsLine ends
  cases margined with
  | blank blank =>
      have skipped : skipBlanks (margin ++ behind) = behind := dropWhile_run blank unblank
      unfold nextLine?
      rw [skipped]
      cases ends with
      | feed => rfl
      | carriage => rfl
      | last => rfl
  | @comment blanks comment blank printable =>
      have skipped : skipBlanks (blanks ++ '#' :: comment ++ behind) =
          '#' :: (comment ++ behind) := by
        rw [List.append_assoc]
        exact dropWhile_run blank (endsRun_cons rfl _)
      have commented : (comment ++ behind).dropWhile isPrintable = behind :=
        dropWhile_run printable unprintable
      unfold nextLine?
      simp only [skipped, commented]
      exact left

/-- The ways to write a key: bare, or between double quotes. -/
inductive SpellsKey (key : Key) : List Char → Prop
  | bare (filled : key ≠ []) (plain : ∀ char ∈ key, isKeyChar char) : SpellsKey key key
  | quoted {spelled : List Char} (spells : SpellsText key spelled) :
      SpellsKey key ('"' :: (spelled ++ ['"']))

/-- A key in one of these ways, or as it is between single quotes. -/
inductive NamesKey (key : Key) : List Char → Prop
  | spelled {name : List Char} (spells : SpellsKey key name) : NamesKey key name
  | literal (plain : ∀ char ∈ key, Quote.single.isPlain char) :
      NamesKey key ('\'' :: (key ++ ['\'']))

theorem NamesKey.exists_head (named : NamesKey key name) :
    ∃ first others, name = first :: others ∧ (isKeyChar first ∨ first = '"' ∨ first = '\'') := by
  cases named with
  | spelled spells =>
      cases spells with
      | bare filled plain =>
          obtain ⟨first, others, rfl⟩ := List.exists_cons_of_ne_nil filled
          exact ⟨first, others, rfl, .inl (plain first List.mem_cons_self)⟩
      | quoted spells => exact ⟨'"', _, rfl, .inr (.inl rfl)⟩
  | literal plain => exact ⟨'\'', _, rfl, .inr (.inr rfl)⟩

/-- What neither quotes nor keys are made of does not begin a key. -/
theorem NamesKey.endsRun (named : NamesKey key name) {kind : Char → Bool}
    (unquoted : ['"', '\''].all (!kind ·)) (outside : ∀ char, isKeyChar char → kind char = false)
    (behind : List Char) : EndsRun kind (name ++ behind) := by
  simp only [List.all_cons, List.all_nil, Bool.and_true, Bool.and_eq_true, Bool.not_eq_true']
    at unquoted
  obtain ⟨first, others, rfl, inside | rfl | rfl⟩ := named.exists_head
  · exact endsRun_cons (outside first inside) _
  · exact endsRun_cons unquoted.1 _
  · exact endsRun_cons unquoted.2 _

/-- Between single quotes every character stands for itself. -/
theorem readLine_literal {text read : List Char}
    (plain : ∀ char ∈ text, Quote.single.isPlain char) :
    readLine .single .text read (text ++ '\'' :: behind) = some (read.reverse ++ text, behind) := by
  induction text generalizing read with
  | nil => simp [readLine, Quote.single]
  | cons char later hypothesis =>
      obtain ⟨first, others⟩ := List.forall_mem_cons.mp plain
      have unquoted : char ≠ Quote.single.mark := by
        rintro rfl
        cases first
      rw [List.cons_append, readLine]
      simp only [if_neg unquoted, if_pos first]
      rw [hypothesis others]
      simp

theorem readKey_named (named : NamesKey key name) (ends : EndsRun isKeyChar behind) :
    readKey (name ++ behind) = some (key, behind) := by
  cases named with
  | literal plain =>
      rw [List.cons_append, List.append_assoc]
      exact readLine_literal plain
  | spelled spells =>
      cases spells with
      | bare filled plain =>
          obtain ⟨first, others, rfl⟩ := List.exists_cons_of_ne_nil filled
          have inside := plain first List.mem_cons_self
          have taken := takeWhile_run plain ends
          have left := dropWhile_run plain ends
          unfold readKey
          split
          · rename_i quoted
            cases quoted
            cases inside
          · rename_i quoted
            cases quoted
            cases inside
          · simp only [taken, left, if_neg filled]
      | @quoted spelled spells =>
          rw [List.cons_append, List.append_assoc]
          exact readLine_spellsText spells

/-- Whole numbers in decimal and strings between double quotes. -/
inductive SpellsValue : Value → List Char → Prop
  | integer {number : Int} (fits : fitsSigned number) :
      SpellsValue (.integer number) (integerText number)
  | text {text spelled : List Char} (spells : SpellsText text spelled) :
      SpellsValue (.text text) ('"' :: (spelled ++ ['"']))

/-- Whole numbers in any of their spellings and strings between double quotes. -/
inductive SpellsScalar : Value → List Char → Prop
  | integer {number : Int} {spelled : List Char} (spells : SpellsInteger number spelled)
      (fits : fitsSigned number) : SpellsScalar (.integer number) spelled
  | text {text spelled : List Char} (spells : SpellsText text spelled) :
      SpellsScalar (.text text) ('"' :: (spelled ++ ['"']))

theorem SpellsValue.scalar (valued : SpellsValue value spelling) :
    SpellsScalar value spelling := by
  cases valued with
  | integer fits => exact .integer (spellsInteger_integerText _) fits
  | text spells => exact .text spells

theorem SpellsScalar.endsRun (valued : SpellsScalar value spelling) {kind : Char → Bool}
    (unquoted : kind '"' = false) (unsigned : ['+', '-'].all (!kind ·))
    (outside : ∀ char, Text.isDigit char → kind char = false) (behind : List Char) :
    EndsRun kind (spelling ++ behind) := by
  cases valued with
  | integer spells fits => exact spells.endsRun unsigned outside behind
  | text spells => exact endsRun_cons unquoted _

theorem readPlain_spelled (valued : SpellsScalar value spelling)
    (ends : EndsRun isScalarChar behind) (unquoted : behind.head? ≠ some '"') :
    readPlain (spelling ++ behind) = some (value, behind) := by
  cases valued with
  | integer spells fits =>
      have unmarked : EndsRun ['"', '\''].contains (spelling ++ behind) :=
        spells.endsRun rfl (fun _ digit => contains_eq_false digit rfl) behind
      unfold readPlain
      split
      · rename_i quoted
        rw [quoted] at unmarked
        cases unmarked '"' rfl
      · rename_i quoted
        rw [quoted] at unmarked
        cases unmarked '\'' rfl
      · exact spells.readScalar_eq fits ends
  | text spells =>
      have read := readString_spellsText spells unquoted
      rw [List.cons_append, List.append_assoc]
      change (readString .double _).map _ = _
      rw [List.singleton_append, read]
      rfl

/-- A value is read at any depth, up to its last character. -/
theorem readValue_spelled (valued : SpellsScalar value spelling) (depth : Nat)
    (ends : EndsRun isScalarChar behind) (unquoted : behind.head? ≠ some '"') :
    readValue depth (spelling ++ behind) = some (value, behind) := by
  have plain := readPlain_spelled valued ends unquoted
  cases depth with
  | zero => exact plain
  | succ depth =>
      have unopened : EndsRun ['[', '\x7b'].contains (spelling ++ behind) :=
        valued.endsRun rfl rfl (fun _ digit => contains_eq_false digit rfl) behind
      unfold readValue
      split
      · rename_i bracket
        rw [bracket] at unopened
        cases unopened '[' rfl
      · rename_i brace
        rw [brace] at unopened
        cases unopened '\x7b' rfl
      · exact plain

/-- A line without its end, and the key and the value that it holds. -/
inductive Line : List Char → Option (Key × Value) → Prop
  | empty {margin : List Char} (margined : Margin margin) : Line margin none
  | pair {indent name gap space spelling margin : List Char} {key : Key} {value : Value}
      (indented : ∀ char ∈ indent, isBlank char) (named : SpellsKey key name)
      (apart : ∀ char ∈ gap, isBlank char) (spaced : ∀ char ∈ space, isBlank char)
      (valued : SpellsValue value spelling) (margined : Margin margin) :
      Line (indent ++ (name ++ (gap ++ '=' :: (space ++ (spelling ++ margin)))))
        (some (key, value))

/-- A line whose key and number may be written in any way. -/
inductive FreeLine : List Char → Option (Key × Value) → Prop
  | empty {margin : List Char} (margined : Margin margin) : FreeLine margin none
  | pair {indent name gap space spelling margin : List Char} {key : Key} {value : Value}
      (indented : ∀ char ∈ indent, isBlank char) (named : NamesKey key name)
      (apart : ∀ char ∈ gap, isBlank char) (spaced : ∀ char ∈ space, isBlank char)
      (valued : SpellsScalar value spelling) (margined : Margin margin) :
      FreeLine (indent ++ (name ++ (gap ++ '=' :: (space ++ (spelling ++ margin)))))
        (some (key, value))

theorem Line.free {line : List Char} {pair : Option (Key × Value)} (lined : Line line pair) :
    FreeLine line pair := by
  cases lined with
  | empty margined => exact .empty margined
  | pair indented named apart spaced valued margined =>
      exact .pair indented (.spelled named) apart spaced valued.scalar margined

theorem isKeyChar_blank {char : Char} (blank : isBlank char) : isKeyChar char = false := by
  rcases blank_cases blank with rfl | rfl <;> rfl

theorem isBlank_eq_false {kind : Char → Bool} {char : Char} (inside : kind char)
    (outside : [' ', '\t'].all (!kind ·)) : isBlank char = false := by
  have apart := contains_eq_false inside outside
  simpa [isBlank] using apart

theorem readPath_spelled {gap : List Char} (named : NamesKey key name)
    (apart : ∀ char ∈ gap, isBlank char) (behind : List Char) :
    readPath (name ++ (gap ++ '=' :: behind)) = some ([key], '=' :: behind) := by
  have start : skipBlanks (name ++ (gap ++ '=' :: behind)) = name ++ (gap ++ '=' :: behind) :=
    dropWhile_run (List.forall_mem_nil _)
      (named.endsRun rfl (fun _ inside => isBlank_eq_false inside rfl) _)
  have outside : EndsRun isKeyChar (gap ++ '=' :: behind) :=
    endsRun_append (fun char member => isKeyChar_blank (apart char member)) (endsRun_cons rfl _)
  have read := readKey_named named outside
  have left : skipBlanks (gap ++ '=' :: behind) = '=' :: behind :=
    dropWhile_run apart (endsRun_cons rfl _)
  have parts : readParts (name ++ (gap ++ '=' :: behind)) = some ([key], '=' :: behind) := by
    rw [readParts, start, read]
    simp only [left]
    rfl
  rw [readPath, parts]
  rfl

theorem readStatement_pair {gap space : List Char} (named : NamesKey key name)
    (apart : ∀ char ∈ gap, isBlank char) (spaced : ∀ char ∈ space, isBlank char)
    (valued : SpellsScalar value spelling) (margined : Margin margin)
    (ends : EndsLine behind rest) :
    readStatement (name ++ (gap ++ '=' :: (space ++ (spelling ++ (margin ++ behind))))) =
      some (.pair [key] value, margin ++ behind) := by
  have path := readPath_spelled named apart (space ++ (spelling ++ (margin ++ behind)))
  have start : skipBlanks (space ++ (spelling ++ (margin ++ behind))) =
      spelling ++ (margin ++ behind) :=
    dropWhile_run spaced (valued.endsRun rfl rfl (fun _ digit => isBlank_eq_false digit rfl) _)
  have unscalar : EndsRun isScalarChar (margin ++ behind) := margined.endsRun ends rfl
  have unquoted : (margin ++ behind).head? ≠ some '"' := by
    have unmarked : EndsRun ['"'].contains (margin ++ behind) := margined.endsRun ends rfl
    intro quote
    cases unmarked '"' quote
  have read := readValue_spelled valued (depthLimit - 1) unscalar unquoted
  have unopened : EndsRun ['['].contains
      (name ++ (gap ++ '=' :: (space ++ (spelling ++ (margin ++ behind))))) :=
    named.endsRun rfl (fun _ inside => contains_eq_false inside rfl) _
  unfold readStatement
  split
  · rename_i bracket
    rw [bracket] at unopened
    cases unopened '[' rfl
  · rename_i bracket
    rw [bracket] at unopened
    cases unopened '[' rfl
  · simp only [readPair, path, Option.bind_some, start, read, Option.map_some]

theorem nextLine?_pair {indent : List Char} (indented : ∀ char ∈ indent, isBlank char)
    (named : NamesKey key name) (behind : List Char) :
    nextLine? (indent ++ (name ++ behind)) = none := by
  have start : skipBlanks (indent ++ (name ++ behind)) = name ++ behind :=
    dropWhile_run indented (named.endsRun rfl (fun _ inside => isBlank_eq_false inside rfl) _)
  have outside : EndsRun ['#', '\n', '\r'].contains (name ++ behind) :=
    named.endsRun rfl (fun _ inside => contains_eq_false inside rfl) behind
  obtain ⟨first, others, rfl, -⟩ := named.exists_head
  have unlike := outside first rfl
  rw [← Bool.not_eq_true, List.contains_iff_mem] at unlike
  simp only [List.mem_cons, List.not_mem_nil, or_false, not_or] at unlike
  obtain ⟨uncommented, unfed, unreturned⟩ := unlike
  rw [nextLine?, start]
  simp [newline?, uncommented, unfed, unreturned]

/-- The reader takes one line off the front of a text. -/
theorem readNext_line {line : List Char} {pair : Option (Key × Value)}
    (lined : FreeLine line pair)
    (ends : EndsLine behind rest) :
    readNext (line ++ behind) =
      some (pair.map fun (key, value) => .pair [key] value, rest) := by
  cases lined with
  | empty margined =>
      rw [readNext, nextLine?_margin margined ends]
      rfl
  | @pair indent name gap space spelling margin key value indented named apart spaced valued
      margined =>
      have statement := readStatement_pair named apart spaced valued margined ends
      have left := nextLine?_margin margined ends
      have start : skipBlanks (indent ++
          (name ++ (gap ++ '=' :: (space ++ (spelling ++ (margin ++ behind)))))) =
          name ++ (gap ++ '=' :: (space ++ (spelling ++ (margin ++ behind)))) :=
        dropWhile_run indented (named.endsRun rfl (fun _ inside => isBlank_eq_false inside rfl) _)
      simp only [List.append_assoc, List.cons_append]
      rw [readNext, nextLine?_pair indented named]
      simp only [start, statement, Option.bind_some, left, Option.map_some]

end MiningAgent.Toml
