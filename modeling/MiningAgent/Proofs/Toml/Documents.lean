import MiningAgent.Proofs.Toml.Lines
import Mathlib.Algebra.Group.Nat.Defs
import Mathlib.Data.List.Nodup

/-!
# Documents of keys and values

A document of lines that each hold a key and a value, or nothing, is the table of these keys
in the order of the lines.  It is malformed if a key stands on two lines.
-/

namespace MiningAgent.Toml

variable {text line rest : List Char} {pairs front : Entries} {pair : Option (Key × Value)}

/-- The marks at the end of a line that others follow. -/
inductive LineBreak : List Char → Prop
  | feed : LineBreak ['\n']
  | carriage : LineBreak ['\r', '\n']

/-- A text of lines, and the keys and values that they hold.  The last line is not broken. -/
inductive Document : List Char → Entries → Prop
  | last {line : List Char} {pair : Option (Key × Value)} (lined : Line line pair) :
      Document line pair.toList
  | line {line mark text : List Char} {pair : Option (Key × Value)} {pairs : Entries}
      (lined : Line line pair) (broken : LineBreak mark) (others : Document text pairs) :
      Document (line ++ (mark ++ text)) (pair.toList ++ pairs)

/-- A text of lines whose keys and numbers may be written in any way. -/
inductive FreeDocument : List Char → Entries → Prop
  | last {line : List Char} {pair : Option (Key × Value)} (lined : FreeLine line pair) :
      FreeDocument line pair.toList
  | line {line mark text : List Char} {pair : Option (Key × Value)} {pairs : Entries}
      (lined : FreeLine line pair) (broken : LineBreak mark) (others : FreeDocument text pairs) :
      FreeDocument (line ++ (mark ++ text)) (pair.toList ++ pairs)

theorem Document.free (document : Document text pairs) : FreeDocument text pairs := by
  induction document with
  | last lined => exact .last lined.free
  | line lined broken _ hypothesis => exact .line lined.free broken hypothesis

theorem LineBreak.endsLine {mark : List Char} (broken : LineBreak mark) (rest : List Char) :
    EndsLine (mark ++ rest) rest := by
  cases broken with
  | feed => exact .feed rest
  | carriage => exact .carriage rest

theorem LineBreak.length_pos {mark : List Char} (broken : LineBreak mark) : 0 < mark.length := by
  cases broken with
  | feed => exact Nat.one_pos
  | carriage => exact Nat.two_pos

/-- The statement on a line with a key. -/
def assigns (pair : Key × Value) : Statement :=
  .pair [pair.1] pair.2

/-- The first line off a text of lines that is not at its end. -/
theorem readStatements_line {behind : List Char} (lined : FreeLine line pair)
    (ends : EndsLine behind rest) (shorter : rest.length < (line ++ behind).length) :
    readStatements (line ++ behind) =
      (readStatements rest).map fun statements => (pair.map assigns).toList ++ statements := by
  have filled : line ++ behind ≠ [] := List.ne_nil_of_length_pos (by omega)
  rw [readStatements, if_neg filled, readNext_line lined ends]
  exact if_pos shorter

theorem readStatements_nil : readStatements [] = some [] := by
  rw [readStatements]
  rfl

theorem FreeLine.eq_none (lined : FreeLine [] pair) : pair = none := by
  have nothing : readNext [] = some (none, []) := rfl
  have read := readNext_line lined .last
  rw [List.append_nil, nothing] at read
  cases pair with
  | none => rfl
  | some pair => cases read

theorem readStatements_document (document : FreeDocument text pairs) :
    readStatements text = some (pairs.map assigns) := by
  induction document with
  | @last line pair lined =>
      by_cases filled : line = []
      · subst filled
        rw [lined.eq_none]
        exact readStatements_nil
      · have longer := List.length_pos_iff.mpr filled
        have ended := readStatements_line lined .last (by simpa using longer)
        rw [List.append_nil, readStatements_nil, Option.map_some, List.append_nil] at ended
        rw [ended]
        cases pair with
        | none => rfl
        | some pair => rfl
  | @line line mark text pair pairs lined broken others hypothesis =>
      have positive := broken.length_pos
      have first := readStatements_line lined (broken.endsLine text) (by simp; omega)
      rw [first, hypothesis]
      cases pair with
      | none => rfl
      | some pair => rfl

/-- No line begins with a byte order mark. -/
theorem FreeLine.endsRun (lined : FreeLine line pair) {behind : List Char}
    (ends : EndsLine behind rest) : EndsRun ['\uFEFF'].contains (line ++ behind) := by
  cases lined with
  | empty margined => exact margined.endsRun ends rfl
  | pair indented named apart spaced valued margined =>
      rw [List.append_assoc, List.append_assoc]
      refine endsRun_append (fun char member => contains_eq_false (indented char member) rfl) ?_
      exact named.endsRun rfl (fun _ inside => contains_eq_false inside rfl) _

theorem withoutMark_document (document : FreeDocument text pairs) : withoutMark text = text := by
  have unmarked : EndsRun ['\uFEFF'].contains text := by
    cases document with
    | last lined =>
        have ended := lined.endsRun .last
        rwa [List.append_nil] at ended
    | line lined broken others => exact lined.endsRun (broken.endsLine _)
  unfold withoutMark
  split
  · cases unmarked '\uFEFF' rfl
  · rfl

namespace Entries

/-- The keys in the order in which they first appear. -/
def keys (entries : Entries) : List Key :=
  entries.map Prod.fst

theorem keys_append (front behind : Entries) : keys (front ++ behind) = front.keys ++ behind.keys :=
  List.map_append

theorem get?_isNone_iff (entries : Entries) (key : Key) :
    (entries.get? key).isNone ↔ key ∉ entries.keys := by
  induction entries with
  | nil => simp [get?, keys]
  | cons entry later hypothesis =>
      obtain ⟨other, value⟩ := entry
      by_cases same : other = key
      · simp [get?, keys, same]
      · simpa [get?, keys, same, Ne.symm same] using hypothesis

end Entries

theorem step_assigns (key : Key) (value : Value) (entries : Entries) :
    Draft.step ⟨[], entries⟩ (assigns (key, value)) =
      if key ∉ entries.keys then some ⟨[], entries ++ [(key, value)]⟩ else none := by
  have vacant := entries.get?_isNone_iff key
  by_cases absent : key ∉ entries.keys
  · rw [if_pos absent]
    simp [Draft.step, assigns, Entries.within?, Entries.assign?, vacant.mpr absent]
  · have taken : ¬ (entries.get? key).isNone := fun free => absent (vacant.mp free)
    rw [if_neg absent]
    simp only [Draft.step, assigns, Entries.within?, Entries.assign?, if_neg taken, Option.map_none]

/-- Keys are added one behind the other as long as each is new. -/
theorem foldlM_assigns (distinct : front.keys.Nodup) :
    (pairs.map assigns).foldlM Draft.step ⟨[], front⟩ =
      if (front ++ pairs).keys.Nodup then some ⟨[], front ++ pairs⟩ else none := by
  induction pairs generalizing front with
  | nil => simp [distinct]
  | cons pair later hypothesis =>
      obtain ⟨key, value⟩ := pair
      rw [List.map_cons, List.foldlM_cons, step_assigns]
      by_cases absent : key ∉ front.keys
      · have grown : (Entries.keys (front ++ [(key, value)])).Nodup := by
          rw [Entries.keys_append]
          exact distinct.append (List.nodup_singleton key) (List.disjoint_singleton.mpr absent)
        have rest := hypothesis grown
        rw [List.append_assoc, List.singleton_append] at rest
        rw [if_pos absent]
        exact rest
      · have repeated : ¬ (Entries.keys (front ++ (key, value) :: later)).Nodup := by
          intro nodup
          rw [Entries.keys_append] at nodup
          have alone := (List.nodup_cons.mp (List.nodup_middle.mp nodup)).1
          exact absent fun member => alone (List.mem_append_left _ member)
        rw [if_neg absent, if_neg repeated]
        rfl

theorem ofStatements?_assigns (pairs : Entries) :
    ofStatements? (pairs.map assigns) = if pairs.keys.Nodup then some pairs else none := by
  have folded : (pairs.map assigns).foldlM Draft.step Draft.empty =
      if pairs.keys.Nodup then some ⟨[], pairs⟩ else none := foldlM_assigns List.nodup_nil
  rw [ofStatements?, folded]
  split
  · rfl
  · rfl

/-- A document is the table of its keys, provided that these are distinct. -/
theorem read?_document (document : FreeDocument text pairs) :
    read? text = if pairs.keys.Nodup then some pairs else none := by
  rw [read?, withoutMark_document document, readStatements_document document]
  exact ofStatements?_assigns pairs

/-- How a key and a value are written in front of and behind an equals sign. -/
structure Writes (written : List Char × List Char) (entry : Key × Value) : Prop where
  named : SpellsKey entry.1 written.1
  valued : SpellsValue entry.2 written.2

/-- Printed lines hold the keys and values that they spell. -/
theorem document_printed {written : List (List Char × List Char)}
    (spelled : List.Forall₂ Writes written pairs) :
    Document (written.flatMap fun (key, value) => pairLine key value) pairs := by
  have blankless : Margin [] := .blank (List.forall_mem_nil _)
  induction spelled with
  | nil => exact .last (.empty blankless)
  | cons first _ hypothesis =>
      have gap : ∀ char ∈ [' '], isBlank char := List.forall_mem_singleton.mpr rfl
      have lined := Line.pair (List.forall_mem_nil _) first.named gap gap first.valued blankless
      have whole := Document.line lined .feed hypothesis
      simpa [pairLine] using whole

theorem writes_integer {key : List Char} (filled : key ≠ []) (plain : key.all isKeyChar)
    {number : Nat} (fits : number < 2 ^ 63) :
    Writes (key, Text.decimal number) (key, .integer number) := by
  have spelled : integerText number = Text.decimal number := by
    simp [integerText]
  have inside : fitsSigned number := by
    simp only [fitsSigned, Bool.and_eq_true, decide_eq_true_eq]
    omega
  have valued := SpellsValue.integer inside
  rw [spelled] at valued
  exact ⟨.bare filled (List.all_eq_true.mp plain), valued⟩

theorem writes_quote {key : List Char} (filled : key ≠ []) (plain : key.all isKeyChar)
    (text : List Char) : Writes (key, quote text) (key, .text text) :=
  ⟨.bare filled (List.all_eq_true.mp plain), .text (spellsText_escaped text)⟩

end MiningAgent.Toml
