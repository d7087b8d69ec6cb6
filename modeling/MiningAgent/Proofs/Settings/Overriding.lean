import MiningAgent.Proofs.Settings.Drafts
import MiningAgent.Proofs.Settings.Values
import MiningAgent.Settings.Resolution

/-!
# Flags above documents and variables

A flag replaces a field of a document, and it stands in front of a variable as a text that
is read like any other.  Both ways the flag has the last word.
-/

namespace MiningAgent

open CommandLine

namespace CommandLine.RunOptions

/-- Whether a flag is given in place of a variable. -/
def masks (options : RunOptions) : Variable → Bool
  | .hashrate => options.hashrate.isSome
  | .agentId => options.agentId.isSome
  | .seed => options.seed.isSome
  | .logLevel => options.logLevel.isSome
  | _ => false

theorem overrides_isSome (options : RunOptions) (setting : Variable) :
    (options.overrides setting).isSome = options.masks setting := by
  cases setting <;> simp [overrides, masks]

end CommandLine.RunOptions

namespace Environment

variable {environment other overrides : Environment} {setting : Variable} {α : Type}
  {options : RunOptions}

theorem overriddenBy_unmasked (unmasked : options.masks setting = false) :
    environment.overriddenBy options.overrides setting = environment setting := by
  have absent : options.overrides setting = none := by
    rw [← Option.isNone_iff_eq_none, ← Option.not_isSome, options.overrides_isSome, unmasked]
    rfl
  rw [overriddenBy, absent]
  rfl

theorem overriddenBy_masked {text : String} (given : options.overrides setting = some text) :
    environment.overriddenBy options.overrides setting = some text := by
  rw [overriddenBy, given]
  rfl

/-- What a masked variable holds makes no difference. -/
theorem overriddenBy_congr
    (agree : ∀ setting, options.masks setting = false → other setting = environment setting) :
    other.overriddenBy options.overrides = environment.overriddenBy options.overrides := by
  funext setting
  cases masked : options.masks setting with
  | false => rw [overriddenBy_unmasked masked, overriddenBy_unmasked masked, agree setting masked]
  | true =>
      rw [← options.overrides_isSome] at masked
      obtain ⟨text, given⟩ := Option.isSome_iff_exists.mp masked
      rw [overriddenBy_masked given, overriddenBy_masked given]

end Environment

namespace Settings

/-- How a flag, a variable and a fallback decide on a value: the flag comes first, and without
it the variable has to be well-formed. -/
def Chosen {α : Type} (flag fallback : Option α) (read : Except Fault (Option α)) (value : α) :
    Prop :=
  match flag with
  | some given => value = given
  | none => ∃ parsed, read = .ok parsed ∧ (parsed <|> fallback) = some value

/-- The settings of a run without a document. -/
structure FromVariables (options : RunOptions) (environment : Environment)
    (settings : Settings) : Prop where
  hashrate : Chosen options.hashrate none (environment.read parseLong .hashrate) settings.hashrate
  agentId : Chosen options.agentId none (environment.read parseWord .agentId) settings.agentId
  seed : Chosen options.seed none (environment.read parseLong .seed) settings.seed
  logLevel : Chosen options.logLevel (some .info) (environment.read parseLevel .logLevel)
    settings.logLevel
  logFile : settings.logFile = environment .logFile
  metricsFile : settings.metricsFile = environment .metricsFile
  errorReportFile : settings.errorReportFile = none
  reportInterval : settings.reportInterval = 60

variable {options : RunOptions} {environment other : Environment} {settings : Settings}
  {setting : Variable} {α : Type} {parse : List Char → Except ValueFault α} {spell : α → String}

/-- A flag that is read back from its own text decides before the variable. -/
theorem chosen_iff {flag : Option α} (stands : options.overrides setting = flag.map spell)
    (spelled : ∀ value, parse (Text.trim (spell value).toList) = .ok value)
    (fallback : Option α) (value : α) :
    Chosen flag fallback (environment.read parse setting) value ↔
      ∃ parsed, (environment.overriddenBy options.overrides).read parse setting = .ok parsed ∧
        (parsed <|> fallback) = some value := by
  cases flag with
  | none =>
      have same : environment.overriddenBy options.overrides setting = environment setting := by
        rw [Environment.overriddenBy, stands]
        rfl
      rw [Environment.read_congr same]
      rfl
  | some given =>
      have set : environment.overriddenBy options.overrides setting = some (spell given) :=
        Environment.overriddenBy_masked stands
      rw [Environment.read_spelled (spelled given) set]
      constructor
      · intro chosen
        exact ⟨some given, rfl, congrArg some (Eq.symm chosen)⟩
      · rintro ⟨_, ⟨⟩, same⟩
        exact (Option.some.inj same).symm

/-- A required setting has no fallback. -/
theorem chosen_required_iff {flag : Option α} (options : RunOptions) (environment : Environment)
    (setting : Variable) (stands : options.overrides setting = flag.map spell)
    (spelled : ∀ value, parse (Text.trim (spell value).toList) = .ok value) (value : α) :
    Chosen flag none (environment.read parse setting) value ↔
      (environment.overriddenBy options.overrides).read parse setting = .ok (some value) := by
  rw [chosen_iff stands spelled]
  simp

theorem chosen_level_iff (options : RunOptions) (environment : Environment) (level : LogLevel) :
    Chosen options.logLevel (some .info) (environment.read parseLevel .logLevel) level ↔
      ∃ parsed, (environment.overriddenBy options.overrides).read parseLevel .logLevel =
        .ok parsed ∧ level = parsed.getD .default := by
  rw [chosen_iff rfl parseLevel_spelled]
  refine exists_congr fun parsed => and_congr_right fun _ => ?_
  cases parsed with
  | none => simp [LogLevel.default, eq_comm]
  | some named => simp [eq_comm]

theorem ofVariables_overridden_iff :
    ofVariables (environment.overriddenBy options.overrides) = .ok settings ↔
      FromVariables options environment settings ∧ settings.IsValid := by
  have hashrate := chosen_required_iff options environment .hashrate rfl parseLong_spelled
    settings.hashrate
  have agentId := chosen_required_iff options environment .agentId rfl parseWord_spelled
    settings.agentId
  have seed := chosen_required_iff options environment .seed rfl parseLong_spelled settings.seed
  have level := chosen_level_iff options environment settings.logLevel
  rw [ofVariables_eq_ok_iff, Draft.ofVariables_eq_ok_iff]
  refine and_congr_left fun _ => ?_
  constructor
  · rintro ⟨hashrateRead, agentIdRead, seedRead, levelRead, logFile, metricsFile, errorReport,
      interval⟩
    exact ⟨hashrate.mpr hashrateRead, agentId.mpr agentIdRead, seed.mpr seedRead,
      level.mpr levelRead, logFile, metricsFile, errorReport, interval⟩
  · intro chosen
    exact ⟨hashrate.mp chosen.hashrate, agentId.mp chosen.agentId, seed.mp chosen.seed,
      level.mp chosen.logLevel, chosen.logFile, chosen.metricsFile, chosen.errorReportFile,
      chosen.reportInterval⟩

/-- Settings that differ from those of a document by the flags alone. -/
structure FromDocument (options : RunOptions) (loaded settings : Settings) : Prop where
  hashrate : settings.hashrate = options.hashrate.getD loaded.hashrate
  agentId : settings.agentId = options.agentId.getD loaded.agentId
  seed : settings.seed = options.seed.getD loaded.seed
  logLevel : settings.logLevel = options.logLevel.getD loaded.logLevel
  logFile : settings.logFile = loaded.logFile
  metricsFile : settings.metricsFile = loaded.metricsFile
  errorReportFile : settings.errorReportFile = loaded.errorReportFile
  reportInterval : settings.reportInterval = loaded.reportInterval

theorem fromDocument_iff (options : RunOptions) (loaded settings : Settings) :
    FromDocument options loaded settings ↔ settings = options.override loaded := by
  constructor
  · rintro ⟨hashrate, agentId, seed, logLevel, logFile, metricsFile, errorReport, interval⟩
    cases settings
    cases hashrate
    cases agentId
    cases seed
    cases logLevel
    cases logFile
    cases metricsFile
    cases errorReport
    cases interval
    rfl
  · rintro rfl
    exact ⟨rfl, rfl, rfl, rfl, rfl, rfl, rfl, rfl⟩

variable {readFile : String → Except String String} {path : String}

theorem resolve_document (named : options.config = some path) :
    resolve options environment readFile =
      (ofFile path (readFile path)).bind fun loaded => (options.override loaded).check := by
  rw [resolve, named]
  rfl

theorem resolve_variables (unnamed : options.config = none) :
    resolve options environment readFile =
      ofVariables (environment.overriddenBy options.overrides) := by
  rw [resolve, unnamed]

theorem resolve_document_eq_ok_iff (environment : Environment)
    (readFile : String → Except String String) (named : options.config = some path)
    (settings : Settings) :
    resolve options environment readFile = .ok settings ↔
      ∃ loaded, ofFile path (readFile path) = .ok loaded ∧ FromDocument options loaded settings ∧
        settings.IsValid := by
  rw [resolve_document named]
  refine bind_eq_ok_iff.trans (exists_congr fun loaded => and_congr_right fun _ => ?_)
  rw [check_eq_ok_iff, fromDocument_iff]
  constructor
  · rintro ⟨valid, rfl⟩
    exact ⟨rfl, valid⟩
  · rintro ⟨rfl, valid⟩
    exact ⟨valid, rfl⟩

/-- How the settings of a run come about.  They are always valid.  With a document they are
those of the document except for the flags, and the variables make no difference.  Without
one each of four settings is its flag or what its variable says, and a variable behind a
flag makes no difference, be it malformed or absent. -/
theorem settings_follow_flags (options : RunOptions) (environment : Environment)
    (readFile : String → Except String String) :
    (∀ settings, resolve options environment readFile = .ok settings →
      settings.IsValid ∧ settings.hashrate ≠ 0 ∧ settings.reportInterval ≠ 0) ∧
    (∀ path, options.config = some path →
      (∀ other, resolve options other readFile = resolve options environment readFile) ∧
      ∀ settings, resolve options environment readFile = .ok settings ↔
        ∃ loaded, ofFile path (readFile path) = .ok loaded ∧
          FromDocument options loaded settings ∧ settings.IsValid) ∧
    (options.config = none →
      (∀ settings, resolve options environment readFile = .ok settings ↔
        FromVariables options environment settings ∧ settings.IsValid) ∧
      ∀ other : Environment,
        (∀ setting, options.masks setting = false → other setting = environment setting) →
          resolve options other readFile = resolve options environment readFile) := by
  have document {path : String} (named : options.config = some path) (settings : Settings) :=
    resolve_document_eq_ok_iff environment readFile named settings
  have plain (unnamed : options.config = none) (settings : Settings) :
      resolve options environment readFile = .ok settings ↔
        FromVariables options environment settings ∧ settings.IsValid := by
    rw [resolve_variables unnamed, ofVariables_overridden_iff]
  refine ⟨?_, ?_, ?_⟩
  · intro settings resolved
    have valid : settings.IsValid := by
      cases config : options.config with
      | none => exact ((plain config settings).mp resolved).2
      | some path =>
          obtain ⟨_, _, _, valid⟩ := (document config settings).mp resolved
          exact valid
    exact ⟨valid, settings.isValid_iff.mp valid⟩
  · intro path named
    refine ⟨fun other => ?_, document named⟩
    rw [resolve_document named, resolve_document named]
  · intro unnamed
    refine ⟨plain unnamed, fun other agree => ?_⟩
    rw [resolve_variables unnamed, resolve_variables unnamed, Environment.overriddenBy_congr agree]

/-- Options of a run with the hashrate for a flag and no document. -/
def hurried : RunOptions where
  config := none
  hashrate := some 7
  agentId := none
  seed := none
  logLevel := none
  difficulty := 1
  duration := 10
  peerInterval := 0

/-- Variables of which the hashrate is no number. -/
def garbled : Environment
  | .hashrate => some "fast"
  | .agentId => some " 3 "
  | .seed => some "+11"
  | _ => none

theorem resolve_garbled_behind_flag :
    hurried.masks .hashrate = true ∧ garbled .hashrate = some "fast" ∧
      (∀ readFile, resolve hurried garbled readFile = .ok ⟨7, 3, 11, .info, none, none, none, 60⟩) ∧
      ∀ readFile, resolve hurried (fun setting => if setting = .hashrate then none else
          garbled setting) readFile = resolve hurried garbled readFile := by
  refine ⟨rfl, rfl, fun readFile => ?_, fun readFile => ?_⟩
  · refine (((settings_follow_flags hurried garbled readFile).2.2 rfl).1 _).mpr ⟨?_, by decide⟩
    exact ⟨rfl, ⟨some 3, by decide, rfl⟩, ⟨some 11, by decide, rfl⟩, ⟨none, rfl, rfl⟩, rfl, rfl,
      rfl, rfl⟩
  · refine ((settings_follow_flags hurried garbled readFile).2.2 rfl).2 _ fun setting unmasked => ?_
    cases setting with
    | hashrate => cases unmasked
    | _ => rfl

end Settings

end MiningAgent
