import MiningAgent.Proofs.Settings.Drafts
import MiningAgent.Proofs.Settings.Wordings
import Mathlib.Algebra.Group.Nat.Defs

/-!
# Which variables are accepted

Variables make up settings if all that are required are set, all that are parsed are worded as
values, and the hashrate is positive.  Otherwise the first variable that cannot be parsed is
told, and if there is none, what is missing.
-/

namespace MiningAgent

open Text

/-- The variables that are parsed, in their order. -/
def Variable.parsed : List Variable := [hashrate, agentId, seed, logLevel]

namespace Environment

section

variable (upper : Char → List Char)

/-- What a variable has to look like.  Paths may look like anything. -/
def IsWording : Variable → String → Prop
  | .hashrate, text => ∃ number < 2 ^ 64, WordsNumber number text.toList
  | .agentId, text => ∃ number < 2 ^ 32, WordsNumber number text.toList
  | .seed, text => ∃ number < 2 ^ 64, WordsNumber number text.toList
  | .logLevel, text => ∃ level : LogLevel, level.Words upper text.toList
  | .logFile, _ => True
  | .metricsFile, _ => True

variable (environment : Environment)

/-- A variable that is set to a text that cannot be parsed. -/
def Malformed (setting : Variable) (text : String) : Prop :=
  environment setting = some text ∧ ¬ IsWording upper setting text

/-- A malformed variable, with none among those that are parsed before it. -/
structure FirstMalformed (setting : Variable) (text : String) : Prop where
  malformed : Malformed upper environment setting text
  earlier : ∀ other ∈ Variable.parsed.takeWhile (· ≠ setting), ∀ text,
    ¬ Malformed upper environment other text

/-- Variables that make up settings, told by their texts alone. -/
structure Acceptable : Prop where
  hashrate : ∃ text, environment .hashrate = some text ∧
    ∃ number, 0 < number ∧ number < 2 ^ 64 ∧ WordsNumber number text.toList
  agentId : ∃ text, environment .agentId = some text ∧
    ∃ number < 2 ^ 32, WordsNumber number text.toList
  seed : ∃ text, environment .seed = some text ∧
    ∃ number < 2 ^ 64, WordsNumber number text.toList
  logLevel : ∀ text, environment .logLevel = some text →
    ∃ level : LogLevel, level.Words upper text.toList

/-- Variables that hold settings. -/
structure Holds (settings : Settings) : Prop where
  hashrate : ∃ text, environment .hashrate = some text ∧
    WordsNumber settings.hashrate.toNat text.toList
  agentId : ∃ text, environment .agentId = some text ∧
    WordsNumber settings.agentId.toNat text.toList
  seed : ∃ text, environment .seed = some text ∧ WordsNumber settings.seed.toNat text.toList
  logLevel : environment .logLevel = none ∧ settings.logLevel = .info ∨
    ∃ text, environment .logLevel = some text ∧ settings.logLevel.Words upper text.toList
  logFile : settings.logFile = environment .logFile
  metricsFile : settings.metricsFile = environment .metricsFile
  errorReportFile : settings.errorReportFile = none
  reportInterval : settings.reportInterval = 60
  positive : settings.hashrate ≠ 0

end

/-- The required variables that are not set, in their order. -/
def absent (environment : Environment) : List Variable :=
  Variable.required.filter fun setting => (environment setting).isNone

section

variable {α : Type} {parse : List Char → Except ValueFault α} {environment : Environment}
  {setting : Variable} {text : String} {upper : Char → List Char}

theorem read_eq_ok_iff {parsed : Option α} :
    environment.read parse setting = .ok parsed ↔
      environment setting = none ∧ parsed = none ∨
        ∃ text value, environment setting = some text ∧ parse (trim text.toList) = .ok value ∧
          parsed = some value := by
  unfold read
  cases environment setting with
  | none => simp [eq_comm]
  | some text => cases known : parse (trim text.toList) <;> simp [known, eq_comm]

theorem read_eq_present_iff {value : α} :
    environment.read parse setting = .ok (some value) ↔
      ∃ text, environment setting = some text ∧ parse (trim text.toList) = .ok value := by
  rw [read_eq_ok_iff]
  simp

/-- A parser of the texts that are worded as a variable has to be. -/
def Parses (upper : Char → List Char) (parse : List Char → Except ValueFault α)
    (setting : Variable) : Prop :=
  ∀ text : String, IsWording upper setting text ↔ ∃ value, parse (trim text.toList) = .ok value

theorem Parses.read_malformed (parses : Parses upper parse setting)
    (malformed : Malformed upper environment setting text) :
    ∃ reason, environment.read parse setting =
      .error (.configuration (.invalid setting.name text reason)) := by
  obtain ⟨set, unworded⟩ := malformed
  rw [read, set]
  cases known : parse (trim text.toList) with
  | error reason => exact ⟨reason, by simp only [known]⟩
  | ok value => exact absurd ((parses text).mpr ⟨value, known⟩) unworded

theorem Parses.read_sound (parses : Parses upper parse setting)
    (sound : ∀ text, ¬ Malformed upper environment setting text) :
    ∃ parsed, environment.read parse setting = .ok parsed ∧
      parsed.isSome = (environment setting).isSome := by
  cases set : environment setting with
  | none => exact ⟨none, by rw [read, set], rfl⟩
  | some text =>
      have worded : IsWording upper setting text := by
        by_contra unworded
        exact sound text ⟨set, unworded⟩
      obtain ⟨value, known⟩ := (parses text).mp worded
      exact ⟨some value, read_eq_present_iff.mpr ⟨text, set, known⟩, rfl⟩

theorem exists_parseLong_iff {text : List Char} :
    (∃ number < 2 ^ 64, WordsNumber number text) ↔
      ∃ value, Settings.parseLong (trim text) = .ok value := by
  constructor
  · rintro ⟨number, fits, words⟩
    refine ⟨UInt64.ofNat number, Settings.parseLong_eq_ok_iff.mpr ?_⟩
    rwa [UInt64.toNat_ofNat_of_lt' fits]
  · rintro ⟨value, known⟩
    exact ⟨value.toNat, value.toNat_lt, Settings.parseLong_eq_ok_iff.mp known⟩

theorem exists_parseWord_iff {text : List Char} :
    (∃ number < 2 ^ 32, WordsNumber number text) ↔
      ∃ value, Settings.parseWord (trim text) = .ok value := by
  constructor
  · rintro ⟨number, fits, words⟩
    refine ⟨UInt32.ofNat number, Settings.parseWord_eq_ok_iff.mpr ?_⟩
    rwa [UInt32.toNat_ofNat_of_lt' fits]
  · rintro ⟨value, known⟩
    exact ⟨value.toNat, value.toNat_lt, Settings.parseWord_eq_ok_iff.mp known⟩

theorem parses_hashrate : Parses upper Settings.parseLong .hashrate := fun _ =>
  exists_parseLong_iff

theorem parses_agentId : Parses upper Settings.parseWord .agentId := fun _ =>
  exists_parseWord_iff

theorem parses_seed : Parses upper Settings.parseLong .seed := fun _ =>
  exists_parseLong_iff

theorem parses_logLevel (uppercase : IsUpperCase upper) :
    Parses upper Settings.parseLevel .logLevel := fun _ =>
  exists_congr fun _ => (Settings.parseLevel_eq_ok_iff uppercase).symm

end

variable {upper : Char → List Char} {environment : Environment} {setting : Variable}
  {text : String}

theorem Malformed.parsed (malformed : Malformed upper environment setting text) :
    setting ∈ Variable.parsed := by
  cases setting with
  | logFile => exact absurd trivial malformed.2
  | metricsFile => exact absurd trivial malformed.2
  | _ => decide

/-- Among malformed variables there is a first one. -/
theorem exists_firstMalformed
    (malformed : ∃ setting text, Malformed upper environment setting text) :
    ∃ setting text, FirstMalformed upper environment setting text := by
  classical
  obtain ⟨first, found⟩ : ∃ first, (Variable.parsed.find? fun setting =>
      ∃ text, Malformed upper environment setting text) = some first := by
    obtain ⟨setting, text, bad⟩ := malformed
    rw [← Option.isSome_iff_exists, List.find?_isSome]
    exact ⟨setting, bad.parsed, decide_eq_true ⟨text, bad⟩⟩
  obtain ⟨bad, front, behind, cut, sound⟩ := List.find?_eq_some_iff_append.mp found
  obtain ⟨text, bad⟩ := of_decide_eq_true bad
  refine ⟨first, text, bad, fun other earlier text worse => ?_⟩
  have before : other ∈ front := by
    rw [cut, List.takeWhile_append] at earlier
    split at earlier
    · simpa using earlier
    · exact (List.takeWhile_prefix _).subset earlier
  have clean : ¬ ∃ text, Malformed upper environment other text := by
    simpa using sound other before
  exact clean ⟨text, worse⟩

/-- The first malformed variable is told, whatever the others hold. -/
theorem FirstMalformed.ofVariables (uppercase : IsUpperCase upper)
    (first : FirstMalformed upper environment setting text) :
    ∃ reason, Settings.ofVariables environment =
      .error (.configuration (.invalid setting.name text reason)) := by
  have sound {other : Variable} (earlier : other ∈ Variable.parsed.takeWhile (· ≠ setting)) :=
    first.earlier other earlier
  suffices described : ∃ reason, Settings.Draft.ofVariables environment =
      .error (.configuration (.invalid setting.name text reason)) by
    obtain ⟨reason, described⟩ := described
    exact ⟨reason, bind_eq_error_iff.mpr (.inl described)⟩
  cases setting with
  | hashrate =>
      obtain ⟨reason, failed⟩ := parses_hashrate.read_malformed first.malformed
      exact ⟨reason, bind_eq_error_iff.mpr (.inl failed)⟩
  | agentId =>
      obtain ⟨hashrate, hashrateRead, -⟩ := parses_hashrate.read_sound (sound (by decide))
      obtain ⟨reason, failed⟩ := parses_agentId.read_malformed first.malformed
      refine ⟨reason, bind_eq_error_iff.mpr (.inr ⟨hashrate, hashrateRead, ?_⟩)⟩
      exact bind_eq_error_iff.mpr (.inl failed)
  | seed =>
      obtain ⟨hashrate, hashrateRead, -⟩ := parses_hashrate.read_sound (sound (by decide))
      obtain ⟨agentId, agentIdRead, -⟩ := parses_agentId.read_sound (sound (by decide))
      obtain ⟨reason, failed⟩ := parses_seed.read_malformed first.malformed
      refine ⟨reason, bind_eq_error_iff.mpr (.inr ⟨hashrate, hashrateRead, ?_⟩)⟩
      refine bind_eq_error_iff.mpr (.inr ⟨agentId, agentIdRead, ?_⟩)
      exact bind_eq_error_iff.mpr (.inl failed)
  | logLevel =>
      obtain ⟨hashrate, hashrateRead, -⟩ := parses_hashrate.read_sound (sound (by decide))
      obtain ⟨agentId, agentIdRead, -⟩ := parses_agentId.read_sound (sound (by decide))
      obtain ⟨seed, seedRead, -⟩ := parses_seed.read_sound (sound (by decide))
      obtain ⟨reason, failed⟩ := (parses_logLevel uppercase).read_malformed first.malformed
      refine ⟨reason, bind_eq_error_iff.mpr (.inr ⟨hashrate, hashrateRead, ?_⟩)⟩
      refine bind_eq_error_iff.mpr (.inr ⟨agentId, agentIdRead, ?_⟩)
      refine bind_eq_error_iff.mpr (.inr ⟨seed, seedRead, ?_⟩)
      exact bind_eq_error_iff.mpr (.inl failed)
  | logFile => exact absurd trivial first.malformed.2
  | metricsFile => exact absurd trivial first.malformed.2

/-- Nothing but what is missing or zero is told of variables that can all be parsed. -/
theorem ofVariables_sound (uppercase : IsUpperCase upper)
    (sound : ∀ setting text, ¬ Malformed upper environment setting text) :
    ∃ draft : Settings.Draft, Settings.ofVariables environment = draft.complete ∧
      draft.missing = environment.absent.map Variable.name ∧
      draft.reportInterval = 60 := by
  obtain ⟨hashrate, hashrateRead, hashrateSet⟩ := parses_hashrate.read_sound (sound .hashrate)
  obtain ⟨agentId, agentIdRead, agentIdSet⟩ := parses_agentId.read_sound (sound .agentId)
  obtain ⟨seed, seedRead, seedSet⟩ := parses_seed.read_sound (sound .seed)
  obtain ⟨level, levelRead, -⟩ := (parses_logLevel uppercase).read_sound (sound .logLevel)
  have described : ∃ draft, Settings.Draft.ofVariables environment = .ok draft ∧
      draft.hashrate = hashrate ∧ draft.agentId = agentId ∧ draft.seed = seed ∧
      draft.reportInterval = 60 := by
    refine ⟨⟨hashrate, agentId, seed, level.getD .default, environment .logFile,
      environment .metricsFile, none, 60⟩, ?_, rfl, rfl, rfl, rfl⟩
    exact (Settings.Draft.ofVariables_eq_ok_iff _ _).mpr ⟨hashrateRead, agentIdRead, seedRead,
      ⟨level, levelRead, rfl⟩, rfl, rfl, rfl, rfl⟩
  obtain ⟨draft, described, rfl, rfl, rfl, interval⟩ := described
  have told : Settings.ofVariables environment = draft.complete := by
    rw [Settings.ofVariables, described]
    rfl
  refine ⟨draft, told, ?_, interval⟩
  have same : ∀ setting ∈ Variable.required,
      (!draft.isPresent setting) = (environment setting).isNone := by
    simp [Variable.required, Settings.Draft.isPresent, hashrateSet, agentIdSet, seedSet]
  rw [Settings.Draft.missing, absent, List.filter_congr same]

end Environment

namespace Settings

variable {upper : Char → List Char} {environment : Environment} {settings : Settings}

/-! ## Accepted variables -/

theorem ofVariables_eq_ok_iff_holds (uppercase : IsUpperCase upper) :
    ofVariables environment = .ok settings ↔ environment.Holds upper settings := by
  have level : (∃ parsed, environment.read parseLevel .logLevel = .ok parsed ∧
        settings.toDraft.logLevel = parsed.getD .default) ↔
      environment .logLevel = none ∧ settings.logLevel = .info ∨
        ∃ text, environment .logLevel = some text ∧ settings.logLevel.Words upper text.toList := by
    simp only [Environment.read_eq_ok_iff, parseLevel_eq_ok_iff uppercase]
    constructor
    · rintro ⟨parsed, ⟨unset, rfl⟩ | ⟨text, named, set, words, rfl⟩, same⟩
      · exact .inl ⟨unset, same⟩
      · change settings.logLevel = named at same
        rw [← same] at words
        exact .inr ⟨text, set, words⟩
    · rintro (⟨unset, same⟩ | ⟨text, set, words⟩)
      · exact ⟨none, .inl ⟨unset, rfl⟩, same⟩
      · exact ⟨some settings.logLevel, .inr ⟨text, _, set, words, rfl⟩, rfl⟩
  rw [ofVariables_eq_ok_iff, Draft.ofVariables_eq_ok_iff, level]
  simp only [toDraft, Environment.read_eq_present_iff, parseLong_eq_ok_iff, parseWord_eq_ok_iff,
    isValid_iff]
  constructor
  · rintro ⟨⟨hashrate, agentId, seed, logLevel, logFile, metricsFile, errorReport, interval⟩,
      positive, -⟩
    exact ⟨hashrate, agentId, seed, logLevel, logFile, metricsFile, errorReport, interval, positive⟩
  · intro holds
    have running : settings.reportInterval ≠ 0 := by
      rw [holds.reportInterval]
      decide
    exact ⟨⟨holds.hashrate, holds.agentId, holds.seed, holds.logLevel, holds.logFile,
      holds.metricsFile, holds.errorReportFile, holds.reportInterval⟩, holds.positive, running⟩

theorem exists_holds_iff :
    (∃ settings, environment.Holds upper settings) ↔ environment.Acceptable upper := by
  constructor
  · rintro ⟨settings, holds⟩
    obtain ⟨text, set, words⟩ := holds.hashrate
    obtain ⟨idText, idSet, idWords⟩ := holds.agentId
    obtain ⟨seedText, seedSet, seedWords⟩ := holds.seed
    have positive : 0 < settings.hashrate.toNat := by
      refine Nat.pos_of_ne_zero fun zero => holds.positive ?_
      exact UInt64.toNat_inj.mp zero
    refine ⟨⟨text, set, _, positive, settings.hashrate.toNat_lt, words⟩,
      ⟨idText, idSet, _, settings.agentId.toNat_lt, idWords⟩,
      ⟨seedText, seedSet, _, settings.seed.toNat_lt, seedWords⟩, fun levelText levelSet => ?_⟩
    rcases holds.logLevel with ⟨unset, _⟩ | ⟨other, otherSet, levelWords⟩
    · rw [unset] at levelSet
      cases levelSet
    · rw [otherSet] at levelSet
      cases levelSet
      exact ⟨_, levelWords⟩
  · rintro ⟨⟨text, set, number, positive, fits, words⟩, ⟨idText, idSet, id, idFits, idWords⟩,
      ⟨seedText, seedSet, seed, seedFits, seedWords⟩, levels⟩
    have level : ∃ level : LogLevel, environment .logLevel = none ∧ level = .info ∨
        ∃ text, environment .logLevel = some text ∧ level.Words upper text.toList := by
      cases levelSet : environment .logLevel with
      | none => exact ⟨.info, .inl ⟨rfl, rfl⟩⟩
      | some levelText =>
          obtain ⟨level, levelWords⟩ := levels levelText levelSet
          exact ⟨level, .inr ⟨levelText, rfl, levelWords⟩⟩
    obtain ⟨level, levelHeld⟩ := level
    have hashing : UInt64.ofNat number ≠ 0 := by
      intro zero
      have same := congrArg UInt64.toNat zero
      rw [UInt64.toNat_ofNat_of_lt' fits] at same
      exact absurd same (Nat.ne_of_gt positive)
    refine ⟨⟨UInt64.ofNat number, UInt32.ofNat id, UInt64.ofNat seed, level,
      environment .logFile, environment .metricsFile, none, 60⟩, ?_, ?_, ?_, levelHeld, rfl, rfl,
      rfl, rfl, hashing⟩
    · exact ⟨text, set, by rwa [UInt64.toNat_ofNat_of_lt' fits]⟩
    · exact ⟨idText, idSet, by rwa [UInt32.toNat_ofNat_of_lt' idFits]⟩
    · exact ⟨seedText, seedSet, by rwa [UInt64.toNat_ofNat_of_lt' seedFits]⟩

/-- What is told of variables that can all be parsed but make up no settings. -/
theorem ofVariables_refused (uppercase : IsUpperCase upper)
    (sound : ∀ setting text, ¬ environment.Malformed upper setting text)
    (refused : ∀ settings, ofVariables environment ≠ .ok settings) :
    ofVariables environment = .error (.configuration
      (if environment.absent = [] then .zero Variable.hashrate.name
        else .missing (environment.absent.map Variable.name))) := by
  obtain ⟨draft, told, missing, interval⟩ := Environment.ofVariables_sound uppercase sound
  rw [told] at refused ⊢
  by_cases whole : environment.absent = []
  · rw [whole] at missing
    obtain ⟨settings, rfl⟩ := Draft.exists_toDraft missing
    have running : settings.reportInterval ≠ 0 := by
      rw [show settings.reportInterval = 60 from interval]
      decide
    have unhashed : settings.hashrate = 0 := by
      by_contra positive
      have valid := settings.isValid_iff.mpr ⟨positive, running⟩
      exact refused settings ((settings.check_eq_ok_iff settings).mpr ⟨valid, rfl⟩)
    rw [if_pos whole, complete_toDraft, check, fault?, if_pos unhashed]
  · have lacks : draft.missing ≠ [] := by
      rw [missing]
      simpa using whole
    rw [if_neg whole, ← missing, Draft.complete_eq_missing lacks]

/-- Variables are accepted exactly on their grammar, and accepted ones are the settings that
they hold.  All others are a fault of the configuration: the first variable that cannot be
parsed is told, in its own words; without one all that is missing; and without that a hashrate
of zero.  Upper case may be any that is full where `upperCase` is not. -/
theorem variables_accepted_exactly {upper : Char → List Char}
    (uppercase : IsUpperCase upper) (environment : Environment) :
    ((∃ settings, ofVariables environment = .ok settings) ↔ environment.Acceptable upper) ∧
    (∀ settings, ofVariables environment = .ok settings ↔ environment.Holds upper settings) ∧
    (¬ environment.Acceptable upper →
      ∃ fault, ofVariables environment = .error (.configuration fault)) ∧
    ((∃ setting text, environment.Malformed upper setting text) →
      ∃ setting text reason, environment.FirstMalformed upper setting text ∧
        ofVariables environment = .error (.configuration (.invalid setting.name text reason)) ∧
        (Fault.configuration (.invalid setting.name text reason)).message =
          "Configuration error: " ++ ("Invalid value '" ++ text ++ "' for " ++ setting.name ++
            ": " ++ reason.message)) ∧
    ((∀ setting text, ¬ environment.Malformed upper setting text) →
      ¬ environment.Acceptable upper →
        ofVariables environment = .error (.configuration
          (if environment.absent = [] then .zero "MINER_HASHRATE"
            else .missing (environment.absent.map Variable.name)))) := by
  have accepted (settings : Settings) : ofVariables environment = .ok settings ↔
      environment.Holds upper settings := ofVariables_eq_ok_iff_holds uppercase
  have acceptable : (∃ settings, ofVariables environment = .ok settings) ↔
      environment.Acceptable upper := by
    rw [← exists_holds_iff]
    exact exists_congr accepted
  have malformed (bad : ∃ setting text, environment.Malformed upper setting text) :
      ∃ setting text reason, environment.FirstMalformed upper setting text ∧
        ofVariables environment = .error (.configuration (.invalid setting.name text reason)) := by
    obtain ⟨setting, text, first⟩ := Environment.exists_firstMalformed bad
    obtain ⟨reason, told⟩ := first.ofVariables uppercase
    exact ⟨setting, text, reason, first, told⟩
  have sound (clean : ∀ setting text, ¬ environment.Malformed upper setting text)
      (unacceptable : ¬ environment.Acceptable upper) :=
    ofVariables_refused uppercase clean fun settings resolved =>
      unacceptable (acceptable.mp ⟨settings, resolved⟩)
  refine ⟨acceptable, accepted, fun unacceptable => ?_, fun bad => ?_, sound⟩
  · by_cases bad : ∃ setting text, environment.Malformed upper setting text
    · obtain ⟨setting, text, reason, -, told⟩ := malformed bad
      exact ⟨_, told⟩
    · push Not at bad
      exact ⟨_, sound bad unacceptable⟩
  · obtain ⟨setting, text, reason, first, told⟩ := malformed bad
    exact ⟨setting, text, reason, first, told, rfl⟩

/-- Upper-casing that knows a letter beyond ASCII. -/
def accentedUpperCase (char : Char) : List Char :=
  if char = 'é' then ['É'] else upperCase char

theorem isUpperCase_accentedUpperCase : IsUpperCase accentedUpperCase := by
  intro char
  by_cases accented : char = 'é'
  · subst accented
    exact .inr ⟨⟨'É', List.mem_singleton.mpr rfl, by decide⟩,
      ⟨'é', List.mem_singleton.mpr rfl, by decide⟩⟩
  · exact .inl (if_neg accented)

/-- Variables with blanks around numbers, a plus, zeros, and a dotless letter in a level. -/
def sloppy : Environment
  | .hashrate => some "\u00A0+007\t"
  | .agentId => some "4294967295"
  | .seed => some "00\r\n"
  | .logLevel => some " warnıng"
  | .logFile => some " é "
  | .metricsFile => none

/-- Variables of which two cannot be parsed, and one is missing. -/
def spoilt : Environment
  | .hashrate => some "0"
  | .agentId => some " 4294967296"
  | .logLevel => some "é"
  | _ => none

theorem holds_sloppy :
    sloppy.Holds accentedUpperCase ⟨7, 4294967295, 0, .warn, some " é ", none, none, 60⟩ := by
  have every {kind : Char → Bool} {text : List Char} (all : text.all kind) :
      ∀ char ∈ text, kind char := List.all_eq_true.mp all
  have hashrate : WordsNumber 7 "\u00A0+007\t".toList :=
    ⟨['+', '0', '0', '7'], ⟨['\u00A0'], ['\t'], every rfl, every rfl, rfl⟩,
      @SpellsNumber.plus ['0', '0', '7'] (by decide) (every rfl)⟩
  have agentId : WordsNumber 4294967295 "4294967295".toList :=
    ⟨"4294967295".toList, ⟨[], [], every rfl, every rfl, rfl⟩,
      @SpellsNumber.plain "4294967295".toList (by decide) (every rfl)⟩
  have seed : WordsNumber 0 "00\r\n".toList :=
    ⟨['0', '0'], ⟨[], ['\r', '\n'], every rfl, every rfl, rfl⟩,
      @SpellsNumber.plain ['0', '0'] (by decide) (every rfl)⟩
  have level : LogLevel.warn.Words accentedUpperCase " warnıng".toList :=
    ⟨"warnıng".toList, ⟨[' '], [], every rfl, every rfl, rfl⟩, by decide⟩
  exact ⟨⟨_, rfl, hashrate⟩, ⟨_, rfl, agentId⟩, ⟨_, rfl, seed⟩, .inr ⟨_, rfl, level⟩, rfl, rfl, rfl,
    rfl, by decide⟩

theorem malformed_spoilt : spoilt.Malformed accentedUpperCase .agentId " 4294967296" := by
  refine ⟨rfl, fun worded => ?_⟩
  obtain ⟨value, known⟩ := (Environment.parses_agentId " 4294967296").mp worded
  cases known

theorem sloppy_accepted_spoilt_refused :
    IsUpperCase accentedUpperCase ∧
    ofVariables sloppy = .ok ⟨7, 4294967295, 0, .warn, some " é ", none, none, 60⟩ ∧
    ∃ setting text reason, spoilt.FirstMalformed accentedUpperCase setting text ∧
      ofVariables spoilt = .error (.configuration (.invalid setting.name text reason)) := by
  have uppercase := isUpperCase_accentedUpperCase
  refine ⟨uppercase, ?_, ?_⟩
  · exact ((variables_accepted_exactly uppercase sloppy).2.1 _).mpr holds_sloppy
  · obtain ⟨setting, text, reason, first, told, -⟩ :=
      (variables_accepted_exactly uppercase spoilt).2.2.2.1 ⟨_, _, malformed_spoilt⟩
    exact ⟨setting, text, reason, first, told⟩

end Settings

end MiningAgent
