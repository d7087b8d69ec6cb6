import MiningAgent.CommandLine.Spelling
import Mathlib.Data.List.Nodup
import Mathlib.Data.List.TakeWhile
import Mathlib.Logic.Function.Basic

/-!
# Lines of flags

Whichever way its flags are written, a line puts their values into the options one after the
other.  So the order of the flags makes no difference, and a flag that is given twice is
refused wherever it stands.
-/

namespace MiningAgent.CommandLine

/-- A flag with its value as it stands on a line. -/
structure Occurrence (Flag : Type) where
  flag : Flag
  value : List Char
  /-- Whether the value is attached to the name of the flag. -/
  attached : Bool
deriving DecidableEq, Repr

variable {Flag Options : Type}

namespace Occurrence

/-- The arguments that a flag takes up. -/
def arguments (name : Flag → String) (occurrence : Occurrence Flag) : List (List Char) :=
  spell occurrence.attached (name occurrence.flag) occurrence.value

/-- A value is not mistaken for a flag, because it is attached or begins otherwise. -/
def IsApart (occurrence : Occurrence Flag) : Prop :=
  occurrence.attached = true ∨ occurrence.value.head? ≠ some '-'

instance (occurrence : Occurrence Flag) : Decidable occurrence.IsApart :=
  inferInstanceAs (Decidable (_ ∨ _))

end Occurrence

/-- All arguments of a line. -/
def lineArguments (name : Flag → String) (line : List (Occurrence Flag)) : List (List Char) :=
  line.flatMap (Occurrence.arguments name)

/-- What may stand behind two hyphens as the name of a flag. -/
structure IsName (name : List Char) : Prop where
  filled : name ≠ []
  unassigned : '=' ∉ name

namespace Argument

theorem ofText_long {name : List Char} (rest : List Char) (named : IsName name) :
    ofText ('-' :: '-' :: (name ++ rest)) = .long ((name ++ rest).takeWhile (· ≠ '='))
      (valueBehind? ((name ++ rest).dropWhile (· ≠ '='))) := by
  obtain ⟨first, others, rfl⟩ := List.exists_cons_of_ne_nil named.filled
  rfl

theorem ofText_attached {name : List Char} (named : IsName name) (value : List Char) :
    ofText ('-' :: '-' :: (name ++ '=' :: value)) = .long name (some value) := by
  have all : ∀ char ∈ name, decide (char ≠ '=') = true := fun char member =>
    decide_eq_true (ne_of_mem_of_not_mem member named.unassigned)
  rw [ofText_long _ named, List.takeWhile_append_of_pos all, List.dropWhile_append_of_pos all]
  simp [valueBehind?]

theorem ofText_name {name : List Char} (named : IsName name) :
    ofText ('-' :: '-' :: name) = .long name none := by
  have all : ∀ char ∈ name, decide (char ≠ '=') = true := fun char member =>
    decide_eq_true (ne_of_mem_of_not_mem member named.unassigned)
  have long := ofText_long [] named
  rw [List.append_nil, List.takeWhile_eq_self_iff.mpr all,
    List.dropWhile_eq_nil_iff.mpr all] at long
  exact long

theorem ofText_plain {text : List Char} (apart : text.head? ≠ some '-') :
    ofText text = .plain text := by
  unfold ofText
  split
  · exact absurd rfl apart
  · exact absurd rfl apart
  · exact absurd rfl apart
  · rfl

end Argument

namespace Grammar

/-- The names of all flags of a grammar. -/
structure Names (grammar : Grammar Flag Options) (name : Flag → String) : Prop where
  isName : ∀ flag, IsName (name flag).toList
  found : ∀ flag, grammar.long? (name flag).toList = some flag
  unhelpful : ∀ flag, (name flag).toList ≠ ['h', 'e', 'l', 'p']

variable {grammar : Grammar Flag Options} {name : Flag → String}

/-- Puts the values of a line into options. -/
def putLine (grammar : Grammar Flag Options) (options : Options)
    (line : List (Occurrence Flag)) : Except UsageFault Options :=
  line.foldlM (fun options occurrence => grammar.put occurrence.flag occurrence.value options)
    options

theorem putLine_cons (grammar : Grammar Flag Options) (options : Options)
    (occurrence : Occurrence Flag) (rest : List (Occurrence Flag)) :
    grammar.putLine options (occurrence :: rest) =
      (grammar.put occurrence.flag occurrence.value options).bind fun next =>
        grammar.putLine next rest :=
  rfl

theorem step_long (names : grammar.Names name) {scan : Scan Flag Options}
    (unescaped : scan.escaped = false) (flag : Flag) (value : Option (List Char)) :
    grammar.step scan (.long (name flag).toList value) = grammar.takeFlag scan flag value := by
  simp [step, unescaped, names.unhelpful flag, names.found flag]

/-- A flag puts its value into the options, at once or when it is committed. -/
theorem steps_occurrence (names : grammar.Names name) {scan : Scan Flag Options}
    (unescaped : scan.escaped = false) {occurrence : Occurrence Flag}
    (apart : occurrence.IsApart) :
    let steps := ((occurrence.arguments name).map Argument.ofText).foldlM grammar.step scan
    let whole := (grammar.commit scan).bind (grammar.put occurrence.flag occurrence.value)
    (∃ fault, steps = .error fault ∧ whole = .error fault) ∨
      ∃ next, steps = .ok next ∧ next.escaped = false ∧ grammar.commit next = whole := by
  obtain ⟨flag, value, attached⟩ := occurrence
  cases attached with
  | true =>
      have argument := Argument.ofText_attached (names.isName flag) value
      simp only [Occurrence.arguments, spell, if_true, List.map_cons, List.map_nil, argument,
        List.foldlM_cons, List.foldlM_nil, bind_pure, step_long names unescaped, takeFlag]
      cases committed : grammar.commit scan with
      | error fault => exact .inl ⟨fault, rfl, rfl⟩
      | ok options =>
          cases put : grammar.put flag value options with
          | error fault => exact .inl ⟨fault, by simp [bind, Except.bind, put], put⟩
          | ok next =>
              refine .inr ⟨⟨next, none, false⟩, ?_, rfl, put.symm⟩
              simp [bind, Except.bind, put, pure, Except.pure]
  | false =>
      have argument := Argument.ofText_name (names.isName flag)
      have plain : Argument.ofText value = .plain value :=
        Argument.ofText_plain (apart.resolve_left Bool.false_ne_true)
      simp only [Occurrence.arguments, spell, Bool.false_eq_true, if_false, List.map_cons,
        List.map_nil, argument, plain, List.foldlM_cons, List.foldlM_nil, bind_pure,
        step_long names unescaped, takeFlag]
      cases committed : grammar.commit scan with
      | error fault => exact .inl ⟨fault, rfl, rfl⟩
      | ok options => exact .inr ⟨⟨options, some (flag, some value), false⟩, rfl, rfl, rfl⟩

/-- Reading a line puts its values into the options. -/
theorem steps_line (names : grammar.Names name) {line : List (Occurrence Flag)}
    (apart : ∀ occurrence ∈ line, occurrence.IsApart) {scan : Scan Flag Options}
    (unescaped : scan.escaped = false) :
    (((lineArguments name line).map Argument.ofText).foldlM grammar.step scan).bind
        grammar.commit =
      (grammar.commit scan).bind fun options => grammar.putLine options line := by
  induction line generalizing scan with
  | nil => cases committed : grammar.commit scan <;> exact committed
  | cons occurrence rest hypothesis =>
      obtain ⟨first, others⟩ := List.forall_mem_cons.mp apart
      have split : (lineArguments name (occurrence :: rest)).map Argument.ofText =
          (occurrence.arguments name).map Argument.ofText ++
            (lineArguments name rest).map Argument.ofText := by
        rw [lineArguments, List.flatMap_cons, List.map_append]
        rfl
      have whole : ((grammar.commit scan).bind fun options =>
          grammar.putLine options (occurrence :: rest)) =
          ((grammar.commit scan).bind (grammar.put occurrence.flag occurrence.value)).bind
            fun options => grammar.putLine options rest := by
        cases grammar.commit scan <;> rfl
      rw [split, List.foldlM_append, whole]
      rcases steps_occurrence names unescaped first with
        ⟨fault, steps, put⟩ | ⟨next, steps, unescaped, put⟩
      · rw [steps, put]
        rfl
      · rw [steps, ← put]
        exact hypothesis others unescaped

theorem read_line (names : grammar.Names name) {line : List (Occurrence Flag)}
    (apart : ∀ occurrence ∈ line, occurrence.IsApart) (options : Options) :
    grammar.read options (lineArguments name line) = grammar.putLine options line :=
  steps_line names apart rfl

/-- Flags with the texts that are given for them, in the order of `all`. -/
def given (all : List Flag) (text? : Flag → Option (List Char)) : List (Flag × List Char) :=
  all.filterMap fun flag => (text? flag).map fun text => (flag, text)

theorem mem_given {all : List Flag} {text? : Flag → Option (List Char)} {flag : Flag}
    {text : List Char} (known : flag ∈ all) :
    (flag, text) ∈ given all text? ↔ text? flag = some text := by
  simp only [given, List.mem_filterMap, Option.map_eq_some_iff, Prod.mk.injEq]
  constructor
  · rintro ⟨other, -, held, heldText, rfl, rfl⟩
    exact heldText
  · exact fun held => ⟨flag, known, text, held, rfl, rfl⟩

theorem map_fst_given (all : List Flag) (text? : Flag → Option (List Char)) :
    (given all text?).map Prod.fst = all.filter fun flag => (text? flag).isSome := by
  induction all with
  | nil => rfl
  | cons flag rest hypothesis =>
      rw [given] at hypothesis ⊢
      cases held : text? flag with
      | none => simp [held, hypothesis]
      | some text => simp [held, hypothesis]

variable {line : List (Occurrence Flag)}

/-- A line on which exactly these flags are given, in any order. -/
def Arranges (line : List (Occurrence Flag)) (given : List (Flag × List Char)) : Prop :=
  (line.map fun occurrence => (occurrence.flag, occurrence.value)).Perm given

instance [DecidableEq Flag] (line : List (Occurrence Flag)) (given : List (Flag × List Char)) :
    Decidable (Arranges line given) :=
  inferInstanceAs (Decidable (List.Perm _ _))

theorem Arranges.flags {all : List Flag} {held : Flag → Option (List Char)}
    (arranges : Arranges line (given all held)) :
    (line.map Occurrence.flag).Perm (all.filter fun flag => (held flag).isSome) := by
  have flags := arranges.map Prod.fst
  rwa [map_fst_given, List.map_map] at flags

theorem Arranges.mem_iff {all : List Flag} {held : Flag → Option (List Char)}
    (arranges : Arranges line (given all held)) (complete : ∀ flag, flag ∈ all) (flag : Flag)
    (text : List Char) :
    (∃ occurrence ∈ line, occurrence.flag = flag ∧ occurrence.value = text) ↔
      held flag = some text := by
  rw [← mem_given (complete flag), ← List.Perm.mem_iff arranges, List.mem_map]
  simp only [Prod.mk.injEq]

/-- Options that hold a text for each flag at most.  A flag for which there is one already is
refused, and the texts say all about the options. -/
structure Collects (grammar : Grammar Flag Options)
    (text? : Options → Flag → Option (List Char)) : Prop where
  injective : Function.Injective text?
  repeated : ∀ flag value options, (text? options flag).isSome →
    grammar.put flag value options = .error .repeatedFlag

section

variable [DecidableEq Flag] {text? : Options → Flag → Option (List Char)} {options : Options}

/-- A value that becomes the text of a flag wherever the flag has none yet. -/
def Takes (grammar : Grammar Flag Options) (text? : Options → Flag → Option (List Char))
    (flag : Flag) (value text : List Char) : Prop :=
  ∀ options, text? options flag = none → ∃ next, grammar.put flag value options = .ok next ∧
    text? next = Function.update (text? options) flag (some text)

/-- The options behind a line hold what they held before and what the line gives. -/
theorem putLine_distinct
    (takes : ∀ occurrence ∈ line,
      grammar.Takes text? occurrence.flag occurrence.value occurrence.value)
    (distinct : (line.map Occurrence.flag).Nodup)
    (fresh : ∀ occurrence ∈ line, text? options occurrence.flag = none) :
    ∃ final, grammar.putLine options line = .ok final ∧
      ∀ flag text, text? final flag = some text ↔
        (∃ occurrence ∈ line, occurrence.flag = flag ∧ occurrence.value = text) ∨
          text? options flag = some text := by
  induction line generalizing options with
  | nil => exact ⟨options, rfl, by simp⟩
  | cons occurrence rest hypothesis =>
      obtain ⟨takesFirst, takesRest⟩ := List.forall_mem_cons.mp takes
      obtain ⟨freshFirst, freshRest⟩ := List.forall_mem_cons.mp fresh
      obtain ⟨alone, distinctRest⟩ := List.nodup_cons.mp distinct
      obtain ⟨next, put, held⟩ := takesFirst options freshFirst
      have freshNext : ∀ other ∈ rest, text? next other.flag = none := by
        intro other member
        have apart : other.flag ≠ occurrence.flag := by
          intro same
          exact alone (same ▸ List.mem_map_of_mem member)
        rw [held, Function.update_of_ne apart]
        exact freshRest other member
      obtain ⟨final, puts, holds⟩ := hypothesis takesRest distinctRest freshNext
      refine ⟨final, by rw [putLine_cons, put]; exact puts, fun flag text => ?_⟩
      rw [holds, held]
      by_cases same : flag = occurrence.flag
      · subst same
        simp [freshFirst, or_comm]
      · simp [same, Ne.symm same]

/-- A flag that is met a second time is refused. -/
theorem putLine_repeated (collects : grammar.Collects text?)
    (takes : ∀ occurrence ∈ line, ∃ text,
      grammar.Takes text? occurrence.flag occurrence.value text)
    (again : (∃ occurrence ∈ line, (text? options occurrence.flag).isSome) ∨
      ¬ (line.map Occurrence.flag).Nodup) :
    grammar.putLine options line = .error .repeatedFlag := by
  induction line generalizing options with
  | nil => simp at again
  | cons occurrence rest hypothesis =>
      obtain ⟨⟨text, takesFirst⟩, takesRest⟩ := List.forall_mem_cons.mp takes
      rw [putLine_cons]
      cases held : text? options occurrence.flag with
      | some before =>
          rw [collects.repeated _ _ _ (by rw [held]; rfl)]
          rfl
      | none =>
          obtain ⟨next, put, grown⟩ := takesFirst options held
          have isSome (flag : Flag) :
              (text? next flag).isSome ↔ flag = occurrence.flag ∨ (text? options flag).isSome := by
            rw [grown]
            by_cases same : flag = occurrence.flag
            · simp [same]
            · simp [same]
          rw [put]
          refine hypothesis takesRest ?_
          simp only [isSome]
          rcases again with ⟨other, member, before⟩ | repeated
          · rcases List.mem_cons.mp member with rfl | later
            · rw [held] at before
              cases before
            · exact .inl ⟨other, later, .inr before⟩
          · by_cases later : occurrence.flag ∈ rest.map Occurrence.flag
            · obtain ⟨other, member, same⟩ := List.mem_map.mp later
              exact .inl ⟨other, member, .inl same⟩
            · exact .inr fun distinct => repeated (List.nodup_cons.mpr ⟨later, distinct⟩)

/-- A line in any order is read as the options whose texts it gives. -/
theorem read_arranged (names : grammar.Names name) (collects : grammar.Collects text?)
    {all : List Flag} (complete : ∀ flag, flag ∈ all) (distinct : all.Nodup) {empty whole : Options}
    (vacant : ∀ flag, text? empty flag = none)
    (takes : ∀ flag text, text? whole flag = some text → grammar.Takes text? flag text text)
    (arranges : Arranges line (given all (text? whole)))
    (apart : ∀ occurrence ∈ line, occurrence.IsApart) :
    grammar.read empty (lineArguments name line) = .ok whole := by
  have mem_iff := arranges.mem_iff complete
  obtain ⟨final, puts, holds⟩ := @putLine_distinct _ _ grammar _ _ _ empty
    (fun occurrence member => takes _ _ ((mem_iff _ _).mp ⟨occurrence, member, rfl, rfl⟩))
    (arranges.flags.nodup_iff.mpr (distinct.filter _)) (fun occurrence _ => vacant _)
  have same : final = whole := by
    refine collects.injective (funext fun flag => Option.ext fun text => ?_)
    rw [holds, mem_iff, vacant]
    simp
  rw [read_line names apart, puts, same]

/-- A flag in front of or behind another occurrence of it is refused. -/
theorem read_repeated (names : grammar.Names name) (collects : grammar.Collects text?)
    {front behind : List (Occurrence Flag)} {extra : Occurrence Flag} {empty : Options}
    (takes : ∀ occurrence ∈ front ++ extra :: behind, ∃ text,
      grammar.Takes text? occurrence.flag occurrence.value text)
    (apart : ∀ occurrence ∈ front ++ extra :: behind, occurrence.IsApart)
    (again : extra.flag ∈ (front ++ behind).map Occurrence.flag) :
    grammar.read empty (lineArguments name (front ++ extra :: behind)) =
      .error .repeatedFlag := by
  rw [read_line names apart]
  refine putLine_repeated collects takes (.inr fun distinct => ?_)
  rw [List.map_append, List.map_cons] at distinct
  rw [List.map_append] at again
  exact (List.nodup_cons.mp (List.nodup_middle.mp distinct)).1 again

end

end Grammar

end MiningAgent.CommandLine
