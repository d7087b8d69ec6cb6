import MiningAgent.Proofs.Settings.Drafts
import MiningAgent.Proofs.Toml.Documents
import MiningAgent.Settings.Document
import MiningAgent.Settings.Spelling

/-!
# Settings that a document holds

A document holds settings if its keys have their values.  It may have other keys as well, and
the order of the lines makes no difference.
-/

namespace MiningAgent

open Toml

namespace Toml

theorem natural?_integer {limit number : Nat} (fits : number ≤ limit) :
    natural? limit (.integer number) = some number := by
  have inside : (0 : Int) ≤ number ∧ (number : Int) ≤ limit := by omega
  rw [natural?, if_pos inside, Int.toNat_natCast]

theorem long?_integer (number : UInt64) : long? (.integer number.toNat) = some number := by
  have fits : number.toNat ≤ Text.maxLong := Nat.le_of_lt_succ number.toNat_lt
  rw [long?, natural?_integer fits, Option.map_some, UInt64.ofNat_toNat]

theorem word?_integer (number : UInt32) : word? (.integer number.toNat) = some number := by
  have fits : number.toNat ≤ Text.maxWord := Nat.le_of_lt_succ number.toNat_lt
  rw [word?, natural?_integer fits, Option.map_some, UInt32.ofNat_toNat]

theorem string?_text (text : String) : string? (.text text.toList) = some text := by
  rw [string?, String.ofList_toList]

theorem level?_name (level : LogLevel) : level? (.text level.name.toList) = some level := by
  rw [level?, String.ofList_toList, LogLevel.ofName?_name]

namespace Entries

variable {α : Type} {read : Value → Option α} {entries : Entries} {key : String} {value : Value}

theorem optional?_present {meant : α} (present : entries.get? key.toList = some value)
    (means : read value = some meant) : entries.optional? read key = some (some meant) := by
  rw [optional?, present]
  exact congrArg (Option.map some) means

theorem optional?_absent (absent : entries.get? key.toList = none) :
    entries.optional? read key = some none := by
  rw [optional?, absent]

/-- A path that may be absent. -/
theorem optional?_path {path : Option String}
    (held : entries.get? key.toList = path.map fun path => .text path.toList) :
    entries.optional? string? key = some path := by
  cases path with
  | none => exact optional?_absent held
  | some path => exact optional?_present held (string?_text path)

/-- A value that may be left out if it is the usual one. -/
def Gives (entries : Entries) (key : String) (value : Value) (isUsual : Prop) : Prop :=
  entries.get? key.toList = some value ∨ entries.get? key.toList = none ∧ isUsual

theorem Gives.optional? {meant usual : α} (gives : entries.Gives key value (meant = usual))
    (means : read value = some meant) :
    ∃ given, entries.optional? read key = some given ∧ given.getD usual = meant := by
  rcases gives with present | ⟨absent, rfl⟩
  · exact ⟨some meant, optional?_present present means, rfl⟩
  · exact ⟨none, optional?_absent absent, rfl⟩

end Entries

end Toml

namespace Settings

/-- The entries that hold settings. -/
structure HeldBy (entries : Entries) (settings : Settings) : Prop where
  hashrate : entries.get? "miner_hashrate".toList = some (.integer settings.hashrate.toNat)
  agentId : entries.get? "agent_id".toList = some (.integer settings.agentId.toNat)
  seed : entries.get? "simulation_seed".toList = some (.integer settings.seed.toNat)
  logLevel : entries.Gives "log_level" (.text settings.logLevel.name.toList)
    (settings.logLevel = .default)
  logFile : entries.get? "log_file".toList = settings.logFile.map fun path => .text path.toList
  metricsFile : entries.get? "metrics_file".toList =
    settings.metricsFile.map fun path => .text path.toList
  errorReportFile : entries.get? "error_metrics_file".toList =
    settings.errorReportFile.map fun path => .text path.toList
  reportInterval : entries.Gives "report_interval_secs"
    (.integer settings.reportInterval.toNat) (settings.reportInterval = defaultReportInterval)

variable {entries : Entries} {settings : Settings} {text : List Char}

theorem HeldBy.ofEntries? (held : HeldBy entries settings) :
    Draft.ofEntries? entries = some settings.toDraft := by
  have hashrate := Entries.optional?_present held.hashrate (long?_integer settings.hashrate)
  have agentId := Entries.optional?_present held.agentId (word?_integer settings.agentId)
  have seed := Entries.optional?_present held.seed (long?_integer settings.seed)
  obtain ⟨level, levelRead, levelMeant⟩ := held.logLevel.optional? (level?_name settings.logLevel)
  obtain ⟨interval, intervalRead, intervalMeant⟩ :=
    held.reportInterval.optional? (long?_integer settings.reportInterval)
  simp only [Draft.ofEntries?, hashrate, agentId, seed, levelRead, levelMeant, intervalRead,
    intervalMeant, Entries.optional?_path held.logFile, Entries.optional?_path held.metricsFile,
    Entries.optional?_path held.errorReportFile, Option.bind_eq_bind, Option.bind_some,
    Option.pure_def]
  rfl

/-- A document makes up what the draft completes to that its entries describe. -/
theorem ofDocument_described {draft : Draft} (document : FreeDocument text entries)
    (distinct : entries.keys.Nodup) (described : Draft.ofEntries? entries = some draft) :
    ofDocument (String.ofList text) = draft.complete := by
  have read : Toml.read? (String.ofList text).toList = some entries := by
    rw [String.toList_ofList, read?_document document, if_pos distinct]
  rw [ofDocument, read]
  simp only [described]

/-- A document makes up the settings that it holds, if they are valid. -/
theorem ofDocument_held (document : FreeDocument text entries) (distinct : entries.keys.Nodup)
    (held : HeldBy entries settings) : ofDocument (String.ofList text) = settings.check := by
  rw [ofDocument_described document distinct held.ofEntries?]
  exact complete_toDraft settings

/-- The entry of a path that may be absent. -/
def pathEntry (key : String) (path : Option String) : Entries :=
  path.toList.map fun path => (key.toList, .text path.toList)

/-- The table of the printed document. -/
def table (settings : Settings) : Entries :=
  [("miner_hashrate".toList, .integer settings.hashrate.toNat),
   ("agent_id".toList, .integer settings.agentId.toNat),
   ("simulation_seed".toList, .integer settings.seed.toNat),
   ("log_level".toList, .text settings.logLevel.name.toList),
   ("report_interval_secs".toList, .integer settings.reportInterval.toNat)] ++
  pathEntry "log_file" settings.logFile ++ pathEntry "metrics_file" settings.metricsFile ++
  pathEntry "error_metrics_file" settings.errorReportFile

theorem keys_table_nodup (settings : Settings) : settings.table.keys.Nodup := by
  obtain ⟨hashrate, agentId, seed, logLevel, logFile, metricsFile, errorReportFile, interval⟩ :=
    settings
  cases logFile <;> cases metricsFile <;> cases errorReportFile <;>
    simp only [table, pathEntry, Entries.keys, Option.toList_none, Option.toList_some,
      List.map_append, List.map_cons, List.map_nil] <;> decide

theorem heldBy_table (settings : Settings) : HeldBy settings.table settings := by
  obtain ⟨hashrate, agentId, seed, logLevel, logFile, metricsFile, errorReportFile, interval⟩ :=
    settings
  cases logFile <;> cases metricsFile <;> cases errorReportFile <;>
    exact ⟨rfl, rfl, rfl, .inl rfl, rfl, rfl, rfl, .inl rfl⟩

theorem writes_path {key : String} (filled : key.toList ≠ []) (plain : key.toList.all isKeyChar)
    (path : Option String) :
    List.Forall₂ Writes (pathPair key path) (pathEntry key path) := by
  cases path with
  | none => exact .nil
  | some path => exact .cons (writes_quote filled plain _) .nil

theorem writes_table (settings : Settings) (hashrateFits : settings.hashrate.toNat < 2 ^ 63)
    (seedFits : settings.seed.toNat < 2 ^ 63)
    (intervalFits : settings.reportInterval.toNat < 2 ^ 63) :
    List.Forall₂ Writes settings.pairs settings.table := by
  have agentIdFits : settings.agentId.toNat < 2 ^ 63 := by
    have word := settings.agentId.toNat_lt
    omega
  refine List.rel_append (List.rel_append (List.rel_append ?_ ?_) ?_) ?_
  · refine .cons (writes_integer (by decide) (by decide) hashrateFits) ?_
    refine .cons (writes_integer (by decide) (by decide) agentIdFits) ?_
    refine .cons (writes_integer (by decide) (by decide) seedFits) ?_
    refine .cons (writes_quote (by decide) (by decide) _) ?_
    exact .cons (writes_integer (by decide) (by decide) intervalFits) .nil
  · exact writes_path (by decide) (by decide) _
  · exact writes_path (by decide) (by decide) _
  · exact writes_path (by decide) (by decide) _

theorem document_table (settings : Settings) (hashrateFits : settings.hashrate.toNat < 2 ^ 63)
    (seedFits : settings.seed.toNat < 2 ^ 63)
    (intervalFits : settings.reportInterval.toNat < 2 ^ 63) :
    Document settings.document.toList settings.table := by
  rw [document, String.toList_ofList]
  exact document_printed (writes_table settings hashrateFits seedFits intervalFits)

end Settings

end MiningAgent
