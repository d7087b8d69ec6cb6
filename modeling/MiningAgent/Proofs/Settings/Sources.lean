import MiningAgent.Proofs.Settings.Documents
import MiningAgent.Proofs.Settings.Overriding

/-!
# One set of settings in two sources

Settings that variables hold and settings that a document holds are the same to a run,
whichever flags are given with them.
-/

namespace MiningAgent

open CommandLine

namespace Settings

variable {settings : Settings} {options : RunOptions} {environment : Environment}
  {readFile : String → Except String String} {path : String} {text : List Char}
  {entries : Toml.Entries}

/-- Settings that have a place in variables and in a document alike: no variable holds the
other two, and the numbers of a document have a sign. -/
structure Portable (settings : Settings) : Prop where
  positive : settings.hashrate ≠ 0
  hashrateFits : settings.hashrate.toNat < 2 ^ 63
  seedFits : settings.seed.toNat < 2 ^ 63
  unreported : settings.errorReportFile = none
  usual : settings.reportInterval = 60

theorem ofVariables_environment (unreported : settings.errorReportFile = none)
    (usual : settings.reportInterval = 60) :
    ofVariables settings.environment = settings.check := by
  have hashrate : settings.environment.read parseLong .hashrate = .ok (some settings.hashrate) :=
    Environment.read_spelled (parseLong_spelled settings.hashrate) rfl
  have agentId : settings.environment.read parseWord .agentId = .ok (some settings.agentId) :=
    Environment.read_spelled (parseWord_spelled settings.agentId) rfl
  have seed : settings.environment.read parseLong .seed = .ok (some settings.seed) :=
    Environment.read_spelled (parseLong_spelled settings.seed) rfl
  have level : settings.environment.read parseLevel .logLevel = .ok (some settings.logLevel) :=
    Environment.read_spelled (parseLevel_spelled settings.logLevel) rfl
  have described : Draft.ofVariables settings.environment = .ok settings.toDraft :=
    (Draft.ofVariables_eq_ok_iff _ _).mpr
      ⟨hashrate, agentId, seed, ⟨_, level, rfl⟩, rfl, rfl, unreported, usual⟩
  rw [ofVariables, described]
  exact complete_toDraft settings

/-- The text in front of another is that of the flag in front of the value. -/
theorem spelled_orElse {α : Type} (spell : α → String) (flag : Option α) (value : α) :
    (flag.map spell <|> some (spell value)) = some (spell (flag.getD value)) := by
  cases flag with
  | none => rfl
  | some given => rfl

/-- Flags in front of variables are the variables of the overridden settings. -/
theorem environment_override (options : RunOptions) (settings : Settings) :
    settings.environment.overriddenBy options.overrides =
      (options.override settings).environment := by
  funext setting
  cases setting with
  | hashrate => exact spelled_orElse _ options.hashrate settings.hashrate
  | agentId => exact spelled_orElse _ options.agentId settings.agentId
  | seed => exact spelled_orElse _ options.seed settings.seed
  | logLevel => exact spelled_orElse _ options.logLevel settings.logLevel
  | logFile => rfl
  | metricsFile => rfl

theorem resolve_environment (portable : settings.Portable) (unnamed : options.config = none) :
    resolve options settings.environment readFile = (options.override settings).check := by
  rw [resolve_variables unnamed, environment_override]
  exact ofVariables_environment portable.unreported portable.usual

theorem resolve_held (valid : settings.IsValid) (named : options.config = some path)
    (document : Toml.Document text entries) (distinct : entries.keys.Nodup)
    (held : HeldBy entries settings) (contents : readFile path = .ok (String.ofList text)) :
    resolve options environment readFile = (options.override settings).check := by
  have loaded : ofFile path (readFile path) = .ok settings := by
    rw [contents]
    exact (ofDocument_held document.free distinct held).trans
      ((check_eq_ok_iff settings settings).mpr ⟨valid, rfl⟩)
  rw [resolve_document named, loaded]
  rfl

theorem Portable.isValid (portable : settings.Portable) : settings.IsValid := by
  refine (isValid_iff settings).mpr ⟨portable.positive, ?_⟩
  rw [portable.usual]
  decide

/-- Only a flag can spoil settings that were valid. -/
theorem Portable.check_override (portable : settings.Portable) (options : RunOptions) :
    (options.override settings).check =
      if options.hashrate = some 0 then .error (.configuration (.zero Variable.hashrate.name))
      else .ok (options.override settings) := by
  have interval : (options.override settings).reportInterval ≠ 0 :=
    ((isValid_iff settings).mp portable.isValid).2
  by_cases zero : options.hashrate = some 0
  · have hashless : (options.override settings).hashrate = 0 := by
      rw [RunOptions.override, zero]
      rfl
    rw [if_pos zero, check, fault?, if_pos hashless]
  · have hashing : (options.override settings).hashrate ≠ 0 := by
      cases given : options.hashrate with
      | none =>
          rw [RunOptions.override, given]
          exact portable.positive
      | some hashrate =>
          rw [RunOptions.override, given]
          rintro rfl
          exact zero given
    rw [if_neg zero]
    exact (check_eq_ok_iff _ _).mpr ⟨(isValid_iff _).mpr ⟨hashing, interval⟩, rfl⟩

/-- Variables and documents that hold the same settings lead to the same run: either both
give the settings with the flags in their places, or both fail with one fault, which is that
the flags ask for no hashes.  The document may be any that holds the settings, and there is
one for all of them. -/
theorem sources_agree (settings : Settings) (portable : settings.Portable) :
    (Toml.Document settings.document.toList settings.table ∧ settings.table.keys.Nodup ∧
      HeldBy settings.table settings) ∧
    ∀ (options : RunOptions) (path : String) (text : List Char) (entries : Toml.Entries)
      (environment : Environment) (readFile unread : String → Except String String),
      Toml.Document text entries → entries.keys.Nodup → HeldBy entries settings →
      readFile path = .ok (String.ofList text) →
        resolve { options with config := none } settings.environment unread =
          resolve { options with config := some path } environment readFile ∧
        ((∃ config, FromDocument options settings config ∧ config.IsValid ∧
            resolve { options with config := none } settings.environment unread = .ok config) ∨
          (options.hashrate = some 0 ∧
            resolve { options with config := none } settings.environment unread =
              .error (.configuration (.zero Variable.hashrate.name)))) := by
  constructor
  · have intervalFits : settings.reportInterval.toNat < 2 ^ 63 := by
      rw [portable.usual]
      decide
    exact ⟨document_table settings portable.hashrateFits portable.seedFits intervalFits,
      keys_table_nodup settings, heldBy_table settings⟩
  · intro options path text entries environment readFile unread document distinct held contents
    have fromVariables : resolve { options with config := none } settings.environment unread =
        (options.override settings).check := resolve_environment portable rfl
    have fromDocument : resolve { options with config := some path } environment readFile =
        (options.override settings).check :=
      resolve_held portable.isValid rfl document distinct held contents
    refine ⟨fromVariables.trans fromDocument.symm, ?_⟩
    have outcome := portable.check_override options
    rw [fromVariables]
    by_cases zero : options.hashrate = some 0
    · rw [if_pos zero] at outcome
      exact .inr ⟨zero, outcome⟩
    · rw [if_neg zero] at outcome
      have changed := (fromDocument_iff options settings _).mpr rfl
      have valid := ((check_eq_ok_iff _ _).mp outcome).1
      exact .inl ⟨_, changed, valid, outcome⟩

def awkward : Settings where
  hashrate := 1000
  agentId := 7
  seed := 42
  logLevel := .debug
  logFile := some "/tmp/\"agent\\\u0007é.log"
  metricsFile := some ""
  errorReportFile := none
  reportInterval := 60

theorem resolve_awkward_twice :
    awkward.Portable ∧
    (resolve hurried awkward.environment (fun _ => .error "no such file") =
        .ok { awkward with hashrate := 7 } ∧
      resolve { hurried with config := some "agent.toml" } garbled
          (fun _ => .ok awkward.document) = .ok { awkward with hashrate := 7 }) ∧
    (resolve { hurried with hashrate := some 0 } awkward.environment
          (fun _ => .error "no such file") =
        .error (.configuration (.zero "MINER_HASHRATE")) ∧
      resolve { hurried with config := some "agent.toml", hashrate := some 0 } garbled
          (fun _ => .ok awkward.document) =
        .error (.configuration (.zero "MINER_HASHRATE"))) := by
  have portable : awkward.Portable := ⟨by decide, by decide, by decide, rfl, rfl⟩
  obtain ⟨⟨document, distinct, held⟩, agree⟩ := sources_agree awkward portable
  have contents : (Except.ok awkward.document : Except String String) =
      .ok (String.ofList awkward.document.toList) := by
    rw [String.ofList_toList]
  have both (options : RunOptions) := agree options "agent.toml" _ _ garbled
    (fun _ => .ok awkward.document) (fun _ => .error "no such file") document distinct held contents
  refine ⟨portable, ?_, ?_⟩
  · obtain ⟨same, outcome⟩ := both hurried
    rcases outcome with ⟨config, changed, -, resolved⟩ | ⟨zero, -⟩
    · have overridden := (fromDocument_iff hurried awkward config).mp changed
      subst overridden
      exact ⟨resolved, same.symm.trans resolved⟩
    · cases zero
  · obtain ⟨same, outcome⟩ := both { hurried with hashrate := some 0 }
    rcases outcome with ⟨config, changed, valid, -⟩ | ⟨-, failed⟩
    · have overridden := (fromDocument_iff _ awkward config).mp changed
      subst overridden
      exact absurd rfl ((isValid_iff _).mp valid).1
    · exact ⟨failed, same.symm.trans failed⟩

end Settings

end MiningAgent
