import MiningAgent.CommandLine.Command
import MiningAgent.Proofs.CommandLine.Lines
import MiningAgent.Proofs.Json.Digits

/-!
# Flags in any order

The flags of a command may stand in any order, with their values attached or as two arguments.
They are read as the options that they spell, and what is left out is absent or has its usual
value.  No flag may be given twice, and sampling delays takes a hashrate and a difficulty.
-/

namespace MiningAgent.CommandLine

open Grammar

/-- What the value of a flag is. -/
inductive Kind
  | path
  | long
  | word
  | level
deriving DecidableEq, Repr

namespace Kind

/-- A value that is taken as the text that is written for it. -/
def Reads : Kind → List Char → List Char → Prop
  | path, value, text => ∃ given, CommandLine.path value = .ok given ∧ text = given.toList
  | long, value, text => ∃ given, CommandLine.long value = .ok given ∧
      text = Text.decimal given.toNat
  | word, value, text => ∃ given, CommandLine.word value = .ok given ∧
      text = Text.decimal given.toNat
  | level, value, text => ∃ given, CommandLine.level value = .ok given ∧
      text = given.name.toList

/-- A text that is written for a value. -/
def Spells : Kind → List Char → Prop
  | path, text => text ≠ []
  | long, text => ∃ number : UInt64, text = Text.decimal number.toNat
  | word, text => ∃ number : UInt32, text = Text.decimal number.toNat
  | level, text => ∃ level : LogLevel, text = level.name.toList

variable {kind : Kind} {text : List Char}

theorem decimal_head_ne_hyphen (number : Nat) : (Text.decimal number).head? ≠ some '-' := by
  intro hyphen
  exact absurd (Text.isDigit_of_mem_decimal (List.mem_of_head? hyphen)) (by decide)

theorem word_of_head {value : List Char} (unsigned : value.head? ≠ some '-') :
    CommandLine.word value = (Text.readWord value).mapError fun _ => .malformedValue := by
  unfold CommandLine.word
  split
  · exact absurd rfl unsigned
  · rfl

theorem Spells.reads (spells : kind.Spells text) : kind.Reads text text := by
  cases kind with
  | path => exact ⟨String.ofList text, if_neg spells, String.toList_ofList.symm⟩
  | long =>
      obtain ⟨number, rfl⟩ := spells
      have fits : number.toNat ≤ Text.maxLong := Nat.le_of_lt_succ number.toNat_lt
      refine ⟨number, ?_, rfl⟩
      rw [CommandLine.long, Text.readLong, Text.readNumber_decimal fits]
      simp [Except.map, Except.mapError]
  | word =>
      obtain ⟨number, rfl⟩ := spells
      have fits : number.toNat ≤ Text.maxWord := Nat.le_of_lt_succ number.toNat_lt
      refine ⟨number, ?_, rfl⟩
      rw [word_of_head (decimal_head_ne_hyphen _), Text.readWord, Text.readNumber_decimal fits]
      simp [Except.map, Except.mapError]
  | level =>
      obtain ⟨level, rfl⟩ := spells
      refine ⟨level, ?_, rfl⟩
      rw [CommandLine.level, String.ofList_toList, LogLevel.ofName?_name]

/-- Only a path could be mistaken for a flag. -/
theorem Spells.head_ne_hyphen (spells : kind.Spells text) (pathless : kind ≠ .path) :
    text.head? ≠ some '-' := by
  cases kind with
  | path => exact absurd rfl pathless
  | long =>
      obtain ⟨number, rfl⟩ := spells
      exact decimal_head_ne_hyphen _
  | word =>
      obtain ⟨number, rfl⟩ := spells
      exact decimal_head_ne_hyphen _
  | level =>
      obtain ⟨level, rfl⟩ := spells
      cases level <;> decide

end Kind

variable {α Draft : Type} {present : Option α} {value : Except UsageFault α}
  {set : Option α → Draft}

theorem once_absent {given : α} (absent : present = none) (known : value = .ok given) :
    (once present value).map set = .ok (set (some given)) := by
  rw [absent, known]
  rfl

theorem once_present (held : present.isSome) :
    (once present value).map set = .error .repeatedFlag := by
  rw [once, if_pos held]
  rfl

theorem decimal_injective : Function.Injective Text.decimal :=
  Function.LeftInverse.injective Text.Numeral.digitsValue_decimal

theorem long_injective : Function.Injective fun number : UInt64 => Text.decimal number.toNat :=
  fun _ _ same => UInt64.toNat_inj.mp (decimal_injective same)

theorem word_injective : Function.Injective fun number : UInt32 => Text.decimal number.toNat :=
  fun _ _ same => UInt32.toNat_inj.mp (decimal_injective same)

theorem level_injective : Function.Injective fun level : LogLevel => level.name.toList := by
  intro first second same
  have read := congrArg (fun text => LogLevel.ofName? (String.ofList text)) same
  simpa [LogLevel.ofName?_name] using read

/-- A line that gives exactly these flags, in any order.  A path that could be mistaken for a
flag is attached to its name. -/
structure IsLine {Flag : Type} (kind : Flag → Kind) (given : List (Flag × List Char))
    (line : List (Occurrence Flag)) : Prop where
  arranges : Arranges line given
  apart : ∀ occurrence ∈ line, kind occurrence.flag = .path → occurrence.IsApart

instance {Flag : Type} [DecidableEq Flag] (kind : Flag → Kind) (given : List (Flag × List Char))
    (line : List (Occurrence Flag)) : Decidable (IsLine kind given line) :=
  decidable_of_iff (Arranges line given ∧
      ∀ occurrence ∈ line, kind occurrence.flag = .path → occurrence.IsApart)
    ⟨fun ⟨arranges, apart⟩ => ⟨arranges, apart⟩, fun ⟨arranges, apart⟩ => ⟨arranges, apart⟩⟩

/-- Another occurrence of a flag on a line, with any value that the flag can take. -/
structure IsAgain {Flag : Type} (kind : Flag → Kind) (line : List (Occurrence Flag))
    (extra : Occurrence Flag) : Prop where
  again : extra.flag ∈ line.map Occurrence.flag
  taken : ∃ text, (kind extra.flag).Reads extra.value text
  apart : extra.IsApart

namespace Grammar

variable {Flag : Type} [DecidableEq Flag]

/-- A grammar whose flags are those of a table, with a name and a kind of value for each. -/
structure Tabulates (grammar : Grammar Flag Draft) (all : List Flag) (name : Flag → String)
    (kind : Flag → Kind) (text? : Draft → Flag → Option (List Char)) (empty : Draft) : Prop where
  complete : ∀ flag, flag ∈ all
  distinct : all.Nodup
  names : grammar.Names name
  collects : grammar.Collects text?
  takes : ∀ flag value text, (kind flag).Reads value text → grammar.Takes text? flag value text
  vacant : ∀ flag, text? empty flag = none

namespace Tabulates

variable {grammar : Grammar Flag Draft} {all : List Flag} {name : Flag → String}
  {kind : Flag → Kind} {text? : Draft → Flag → Option (List Char)} {empty draft : Draft}
  {line : List (Occurrence Flag)}

theorem spells (tabulates : grammar.Tabulates all name kind text? empty)
    (spelled : ∀ flag text, text? draft flag = some text → (kind flag).Spells text)
    (isLine : IsLine kind (given all (text? draft)) line) {occurrence : Occurrence Flag}
    (member : occurrence ∈ line) : (kind occurrence.flag).Spells occurrence.value :=
  spelled _ _ ((isLine.arranges.mem_iff tabulates.complete _ _).mp ⟨occurrence, member, rfl, rfl⟩)

theorem isApart (tabulates : grammar.Tabulates all name kind text? empty)
    (spelled : ∀ flag text, text? draft flag = some text → (kind flag).Spells text)
    (isLine : IsLine kind (given all (text? draft)) line) {occurrence : Occurrence Flag}
    (member : occurrence ∈ line) : occurrence.IsApart := by
  by_cases path : kind occurrence.flag = .path
  · exact isLine.apart occurrence member path
  · exact .inr ((tabulates.spells spelled isLine member).head_ne_hyphen path)

theorem read_line (tabulates : grammar.Tabulates all name kind text? empty)
    (spelled : ∀ flag text, text? draft flag = some text → (kind flag).Spells text)
    (isLine : IsLine kind (given all (text? draft)) line) :
    grammar.read empty (lineArguments name line) = .ok draft :=
  read_arranged tabulates.names tabulates.collects tabulates.complete tabulates.distinct
    tabulates.vacant (fun flag text held => tabulates.takes _ _ _ (spelled flag text held).reads)
    isLine.arranges fun _ member => tabulates.isApart spelled isLine member

theorem read_again (tabulates : grammar.Tabulates all name kind text? empty)
    (spelled : ∀ flag text, text? draft flag = some text → (kind flag).Spells text)
    {front behind : List (Occurrence Flag)} {extra : Occurrence Flag}
    (isLine : IsLine kind (given all (text? draft)) (front ++ behind))
    (isAgain : IsAgain kind (front ++ behind) extra) :
    grammar.read empty (lineArguments name (front ++ extra :: behind)) = .error .repeatedFlag := by
  have split : ∀ occurrence ∈ front ++ extra :: behind,
      occurrence = extra ∨ occurrence ∈ front ++ behind := by
    intro occurrence member
    rw [List.mem_append, List.mem_cons] at member
    rw [List.mem_append]
    tauto
  refine read_repeated tabulates.names tabulates.collects (fun occurrence member => ?_)
    (fun occurrence member => ?_) isAgain.again
  · rcases split occurrence member with rfl | member
    · obtain ⟨text, reads⟩ := isAgain.taken
      exact ⟨text, tabulates.takes _ _ _ reads⟩
    · exact ⟨_, tabulates.takes _ _ _ (tabulates.spells spelled isLine member).reads⟩
  · rcases split occurrence member with rfl | member
    · exact isAgain.apart
    · exact tabulates.isApart spelled isLine member

end Tabulates

end Grammar

/-- The options that a value stands for when it may be left out. -/
def IsUsually (given : Option α) (usual value : α) : Prop :=
  given = some value ∨ given = none ∧ value = usual

theorem IsUsually.getD_eq {given : Option α} {usual value : α}
    (usually : IsUsually given usual value) : given.getD usual = value := by
  rcases usually with rfl | ⟨rfl, rfl⟩ <;> rfl

/-! ## The flags of a run -/

def RunFlag.kind : RunFlag → Kind
  | .config => .path
  | .agentId => .word
  | .logLevel => .level
  | _ => .long

namespace RunDraft

theorem names : grammar.Names RunFlag.name where
  isName flag := by
    constructor <;> cases flag <;> decide
  found flag := by
    cases flag <;> decide
  unhelpful flag := by
    cases flag <;> decide

theorem collects : grammar.Collects text? where
  injective := by
    intro first second same
    have config := Option.map_injective (fun _ _ => String.toList_inj.mp) (congrFun same .config)
    have hashrate := Option.map_injective long_injective (congrFun same .hashrate)
    have agentId := Option.map_injective word_injective (congrFun same .agentId)
    have seed := Option.map_injective long_injective (congrFun same .seed)
    have logLevel := Option.map_injective level_injective (congrFun same .logLevel)
    have difficulty := Option.map_injective long_injective (congrFun same .difficulty)
    have duration := Option.map_injective long_injective (congrFun same .duration)
    have peerInterval := Option.map_injective long_injective (congrFun same .peerInterval)
    cases first
    cases second
    simp only at config hashrate agentId seed logLevel difficulty duration peerInterval
    simp only [*]
  repeated := by
    intro flag value draft held
    cases flag
    all_goals exact once_present (Option.isSome_map.symm.trans held)

theorem takes (flag : RunFlag) (value text : List Char) (reads : flag.kind.Reads value text) :
    grammar.Takes text? flag value text := by
  intro draft absent
  cases flag
  all_goals
    obtain ⟨given, known, rfl⟩ := reads
    refine ⟨_, once_absent (Option.map_eq_none_iff.mp absent) known, ?_⟩
    funext other
    cases other <;> rfl

theorem tabulates : grammar.Tabulates RunFlag.all RunFlag.name RunFlag.kind text? empty where
  complete flag := by
    cases flag <;> decide
  distinct := by decide
  names := names
  collects := collects
  takes := takes
  vacant flag := by
    cases flag <;> rfl

theorem spells {draft : RunDraft} (filled : draft.config ≠ some "") (flag : RunFlag)
    (text : List Char) (held : draft.text? flag = some text) : flag.kind.Spells text := by
  cases flag
  case config =>
    obtain ⟨path, given, rfl⟩ := Option.map_eq_some_iff.mp held
    intro empty
    exact filled (given.trans (congrArg some (String.toList_eq_nil_iff.mp empty)))
  all_goals
    obtain ⟨value, -, rfl⟩ := Option.map_eq_some_iff.mp held
    exact ⟨value, rfl⟩

/-- What a draft gives are these options: a flag that it leaves out is absent from them or has
its usual value. -/
structure Shows (draft : RunDraft) (options : RunOptions) : Prop where
  config : draft.config = options.config
  hashrate : draft.hashrate = options.hashrate
  agentId : draft.agentId = options.agentId
  seed : draft.seed = options.seed
  logLevel : draft.logLevel = options.logLevel
  difficulty : IsUsually draft.difficulty 1 options.difficulty
  duration : IsUsually draft.duration 10 options.duration
  peerInterval : IsUsually draft.peerInterval 0 options.peerInterval

theorem Shows.complete {draft : RunDraft} {options : RunOptions} (shown : draft.Shows options) :
    draft.complete = options := by
  obtain ⟨config, hashrate, agentId, seed, logLevel, difficulty, duration, peerInterval⟩ := shown
  simp only [RunDraft.complete, config, hashrate, agentId, seed, logLevel, difficulty.getD_eq,
    duration.getD_eq, peerInterval.getD_eq]

end RunDraft

def DelayFlag.kind : DelayFlag → Kind
  | .agentId => .word
  | _ => .long

namespace DelayDraft

theorem names : grammar.Names DelayFlag.name where
  isName flag := by
    constructor <;> cases flag <;> decide
  found flag := by
    cases flag <;> decide
  unhelpful flag := by
    cases flag <;> decide

theorem collects : grammar.Collects text? where
  injective := by
    intro first second same
    have hashrate := Option.map_injective long_injective (congrFun same .hashrate)
    have difficulty := Option.map_injective long_injective (congrFun same .difficulty)
    have seed := Option.map_injective long_injective (congrFun same .seed)
    have agentId := Option.map_injective word_injective (congrFun same .agentId)
    have samples := Option.map_injective long_injective (congrFun same .samples)
    cases first
    cases second
    simp only at hashrate difficulty seed agentId samples
    simp only [*]
  repeated := by
    intro flag value draft held
    cases flag
    all_goals exact once_present (Option.isSome_map.symm.trans held)

theorem takes (flag : DelayFlag) (value text : List Char) (reads : flag.kind.Reads value text) :
    grammar.Takes text? flag value text := by
  intro draft absent
  cases flag
  all_goals
    obtain ⟨given, known, rfl⟩ := reads
    refine ⟨_, once_absent (Option.map_eq_none_iff.mp absent) known, ?_⟩
    funext other
    cases other <;> rfl

theorem tabulates :
    grammar.Tabulates DelayFlag.all DelayFlag.name DelayFlag.kind text? empty where
  complete flag := by
    cases flag <;> decide
  distinct := by decide
  names := names
  collects := collects
  takes := takes
  vacant flag := by
    cases flag <;> rfl

theorem spells (draft : DelayDraft) (flag : DelayFlag) (text : List Char)
    (held : draft.text? flag = some text) : flag.kind.Spells text := by
  cases flag
  all_goals
    obtain ⟨value, -, rfl⟩ := Option.map_eq_some_iff.mp held
    exact ⟨value, rfl⟩

/-- What a draft gives are these options: a hashrate and a difficulty, and what it leaves out
of the rest has its usual value. -/
structure Shows (draft : DelayDraft) (options : DelayOptions) : Prop where
  hashrate : draft.hashrate = some options.hashrate
  difficulty : draft.difficulty = some options.difficulty
  seed : IsUsually draft.seed 0 options.seed
  agentId : IsUsually draft.agentId 0 options.agentId
  samples : IsUsually draft.samples 10000 options.samples

theorem Shows.complete {draft : DelayDraft} {options : DelayOptions}
    (shown : draft.Shows options) : draft.complete = .ok options := by
  obtain ⟨hashrate, difficulty, seed, agentId, samples⟩ := shown
  simp only [DelayDraft.complete, hashrate, difficulty, seed.getD_eq, agentId.getD_eq,
    samples.getD_eq]

theorem complete_lacking {draft : DelayDraft}
    (lacking : draft.hashrate = none ∨ draft.difficulty = none) :
    draft.complete = .error .missingFlag := by
  unfold DelayDraft.complete
  rcases lacking with lacking | lacking
  · rw [lacking]
  · rw [lacking]
    cases draft.hashrate <;> rfl

end DelayDraft

/-- All arguments of a command: its name and a line of flags. -/
def commandLine {Flag : Type} (word : String) (name : Flag → String)
    (line : List (Occurrence Flag)) : List String :=
  word :: (lineArguments name line).map String.ofList

theorem map_toList_ofList (texts : List (List Char)) :
    (texts.map String.ofList).map String.toList = texts := by
  rw [List.map_map]
  exact (List.map_congr_left fun _ _ => String.toList_ofList).trans (List.map_id _)

theorem read_run (line : List (Occurrence RunFlag)) :
    Command.read (commandLine "run" RunFlag.name line) =
      ((RunDraft.grammar.read .empty (lineArguments RunFlag.name line)).map
        RunDraft.complete).map .run := by
  rw [commandLine, Command.read, if_pos rfl, map_toList_ofList, RunOptions.read]

theorem read_delays (line : List (Occurrence DelayFlag)) :
    Command.read (commandLine "delays" DelayFlag.name line) =
      ((DelayDraft.grammar.read .empty (lineArguments DelayFlag.name line)).bind
        DelayDraft.complete).map .delays := by
  rw [commandLine, Command.read, if_neg (by decide), if_pos rfl, map_toList_ofList,
    DelayOptions.read]
  rfl

/-- Flags are read as the options that they spell, in whatever order they stand and with their
values attached or behind them; what is left out is absent or has its usual value.  A flag
given twice is refused wherever it stands the second time, and so is sampling without a hashrate
or a difficulty. -/
theorem flags_read_in_any_order :
    (∀ (options : RunOptions) (draft : RunDraft) (line : List (Occurrence RunFlag)),
      options.config ≠ some "" → draft.Shows options → IsLine RunFlag.kind draft.given line →
        Command.read (commandLine "run" RunFlag.name line) = .ok (.run options)) ∧
    (∀ (draft : RunDraft) (front behind : List (Occurrence RunFlag)) (extra : Occurrence RunFlag),
      draft.config ≠ some "" → IsLine RunFlag.kind draft.given (front ++ behind) →
        IsAgain RunFlag.kind (front ++ behind) extra →
        Command.read (commandLine "run" RunFlag.name (front ++ extra :: behind)) =
          .error .repeatedFlag) ∧
    (∀ (options : DelayOptions) (draft : DelayDraft) (line : List (Occurrence DelayFlag)),
      draft.Shows options → IsLine DelayFlag.kind draft.given line →
        Command.read (commandLine "delays" DelayFlag.name line) = .ok (.delays options)) ∧
    (∀ (draft : DelayDraft) (front behind : List (Occurrence DelayFlag))
      (extra : Occurrence DelayFlag), IsLine DelayFlag.kind draft.given (front ++ behind) →
        IsAgain DelayFlag.kind (front ++ behind) extra →
        Command.read (commandLine "delays" DelayFlag.name (front ++ extra :: behind)) =
          .error .repeatedFlag) ∧
    (∀ (draft : DelayDraft) (line : List (Occurrence DelayFlag)),
      draft.hashrate = none ∨ draft.difficulty = none → IsLine DelayFlag.kind draft.given line →
        Command.read (commandLine "delays" DelayFlag.name line) = .error .missingFlag) := by
  refine ⟨?run, ?runAgain, ?delays, ?delaysAgain, ?lacking⟩
  case run =>
    intro options draft line filled shown isLine
    have spells := draft.spells (shown.config ▸ filled)
    rw [read_run, RunDraft.tabulates.read_line spells isLine]
    exact congrArg (Except.ok ∘ Command.run) shown.complete
  case runAgain =>
    intro draft front behind extra filled isLine isAgain
    rw [read_run, RunDraft.tabulates.read_again (draft.spells filled) isLine isAgain]
    rfl
  case delays =>
    intro options draft line shown isLine
    rw [read_delays, DelayDraft.tabulates.read_line draft.spells isLine]
    exact congrArg (Except.map Command.delays) shown.complete
  case delaysAgain =>
    intro draft front behind extra isLine isAgain
    rw [read_delays, DelayDraft.tabulates.read_again draft.spells isLine isAgain]
    rfl
  case lacking =>
    intro draft line lacking isLine
    rw [read_delays, DelayDraft.tabulates.read_line draft.spells isLine]
    exact congrArg (Except.map Command.delays) (DelayDraft.complete_lacking lacking)

/-- A run that leaves out its hashrate, its seed and all that has a usual value but one. -/
def partialRun : RunDraft :=
  ⟨some "-c.toml", none, some 7, none, some .warn, none, none, some 250⟩

/-- Its flags out of order, in both ways of writing. -/
def shuffledRun : List (Occurrence RunFlag) :=
  [⟨.peerInterval, "250".toList, false⟩, ⟨.config, "-c.toml".toList, true⟩,
    ⟨.logLevel, "WARN".toList, false⟩, ⟨.agentId, "7".toList, true⟩]

def partialDelays : DelayDraft := ⟨some 1000, some 18446744073709551615, none, none, some 3⟩

def shuffledDelays : List (Occurrence DelayFlag) :=
  [⟨.samples, "3".toList, true⟩, ⟨.difficulty, "18446744073709551615".toList, false⟩,
    ⟨.hashrate, "1000".toList, false⟩]

theorem shuffled_lines_read :
    Command.read ["run", "--peer-interval-ms", "250", "--config=-c.toml", "--log-level", "WARN",
        "--agent-id=7"] =
      .ok (.run ⟨some "-c.toml", none, some 7, none, some .warn, 1, 10, 250⟩) ∧
    Command.read ["run", "--peer-interval-ms", "250", "--config=-c.toml", "--agent-id=-00",
        "--log-level", "WARN", "--agent-id=7"] = .error .repeatedFlag ∧
    Command.read ["delays", "--samples=3", "--difficulty", "18446744073709551615",
        "--hashrate", "1000"] =
      .ok (.delays ⟨1000, 18446744073709551615, 0, 0, 3⟩) ∧
    Command.read ["delays", "--samples=3", "--difficulty", "18446744073709551615",
        "--hashrate", "1000", "--samples", "+9"] = .error .repeatedFlag ∧
    Command.read ["delays", "--samples=3", "--difficulty", "18446744073709551615"] =
      .error .missingFlag := by
  refine ⟨?run, ?runAgain, ?delays, ?delaysAgain, ?lacking⟩
  case run =>
    exact flags_read_in_any_order.1 ⟨some "-c.toml", none, some 7, none, some .warn, 1, 10, 250⟩
      partialRun shuffledRun (by decide)
      ⟨rfl, rfl, rfl, rfl, rfl, .inr ⟨rfl, rfl⟩, .inr ⟨rfl, rfl⟩, .inl rfl⟩ (by decide)
  case runAgain =>
    exact flags_read_in_any_order.2.1 partialRun (shuffledRun.take 2) (shuffledRun.drop 2)
      ⟨.agentId, "-00".toList, true⟩ (by decide) (by decide)
      ⟨by decide, ⟨_, 0, rfl, rfl⟩, .inl rfl⟩
  case delays =>
    exact flags_read_in_any_order.2.2.1 ⟨1000, 18446744073709551615, 0, 0, 3⟩ partialDelays
      shuffledDelays ⟨rfl, rfl, .inr ⟨rfl, rfl⟩, .inr ⟨rfl, rfl⟩, .inl rfl⟩ (by decide)
  case delaysAgain =>
    exact flags_read_in_any_order.2.2.2.1 partialDelays shuffledDelays []
      ⟨.samples, "+9".toList, false⟩ (by decide)
      ⟨by decide, ⟨_, 9, rfl, rfl⟩, .inr (by decide)⟩
  case lacking =>
    exact flags_read_in_any_order.2.2.2.2 { partialDelays with hashrate := none }
      (shuffledDelays.take 2) (.inl rfl) (by decide)

end MiningAgent.CommandLine
