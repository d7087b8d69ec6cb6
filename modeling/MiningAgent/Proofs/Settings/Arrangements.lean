import MiningAgent.Proofs.Settings.Documents
import MiningAgent.Proofs.Toml.Tables

/-!
# Documents in any order

A document gives settings their values in any order of its lines, among comments and keys that
are no settings.  Without some of the required keys it is told exactly which are missing, and a
key that is given twice makes it malformed.
-/

namespace MiningAgent

open Toml

/-- The key of a setting in a document. -/
def Variable.key : Variable → Key
  | hashrate => "miner_hashrate".toList
  | agentId => "agent_id".toList
  | seed => "simulation_seed".toList
  | logLevel => "log_level".toList
  | logFile => "log_file".toList
  | metricsFile => "metrics_file".toList

namespace Settings

variable {settings : Settings} {entries other foreign : Entries} {text : List Char}

/-- The keys of a document that are settings. -/
def settingKeys : List Key :=
  ["miner_hashrate", "agent_id", "simulation_seed", "log_level", "report_interval_secs",
    "log_file", "metrics_file", "error_metrics_file"].map String.toList

theorem mem_settingKeys_of_mem_table {key : Key} (member : key ∈ settings.table.keys) :
    key ∈ settingKeys := by
  have paths : ∀ key, key ∈ (pathEntry "log_file" settings.logFile).keys ∨
      key ∈ (pathEntry "metrics_file" settings.metricsFile).keys ∨
      key ∈ (pathEntry "error_metrics_file" settings.errorReportFile).keys →
      key ∈ settingKeys := by
    intro key
    simp only [pathEntry, Entries.keys, List.map_map, List.mem_map, Function.comp_apply]
    rintro (⟨_, -, rfl⟩ | ⟨_, -, rfl⟩ | ⟨_, -, rfl⟩) <;> decide
  simp only [table, Entries.keys_append, List.mem_append, or_assoc] at member
  rcases member with numbers | path
  · have inside : ∀ key ∈ ["miner_hashrate".toList, "agent_id".toList, "simulation_seed".toList,
        "log_level".toList, "report_interval_secs".toList], key ∈ settingKeys := by decide
    exact inside key numbers
  · exact paths key path

/-- Only the values of its keys matter to settings. -/
theorem HeldBy.congr (held : HeldBy entries settings)
    (same : ∀ key ∈ settingKeys, other.get? key = entries.get? key) : HeldBy other settings where
  hashrate := (same _ (by decide)).trans held.hashrate
  agentId := (same _ (by decide)).trans held.agentId
  seed := (same _ (by decide)).trans held.seed
  logLevel := by
    rw [Entries.Gives, same _ (by decide)]
    exact held.logLevel
  logFile := (same _ (by decide)).trans held.logFile
  metricsFile := (same _ (by decide)).trans held.metricsFile
  errorReportFile := (same _ (by decide)).trans held.errorReportFile
  reportInterval := by
    rw [Entries.Gives, same _ (by decide)]
    exact held.reportInterval

/-- The entries of settings in any order, among others whose keys are no settings. -/
structure IsArranged (settings : Settings) (foreign entries : Entries) : Prop where
  arranged : entries.Perm (settings.table ++ foreign)
  distinct : foreign.keys.Nodup
  unknown : ∀ key ∈ foreign.keys, key ∉ settingKeys

namespace IsArranged

theorem nodup_whole (isArranged : settings.IsArranged foreign entries) :
    (Entries.keys (settings.table ++ foreign)).Nodup := by
  rw [Entries.keys_append]
  refine (keys_table_nodup settings).append isArranged.distinct ?_
  exact fun key member known =>
    isArranged.unknown key known (mem_settingKeys_of_mem_table member)

theorem nodup (isArranged : settings.IsArranged foreign entries) : entries.keys.Nodup :=
  (isArranged.arranged.map Prod.fst).nodup_iff.mpr isArranged.nodup_whole

theorem heldBy (isArranged : settings.IsArranged foreign entries) : HeldBy entries settings := by
  refine (heldBy_table settings).congr fun key known => ?_
  rw [Entries.get?_perm isArranged.arranged isArranged.nodup]
  exact Entries.get?_append fun member => isArranged.unknown key member known

theorem writable (isArranged : settings.IsArranged foreign entries)
    (table : settings.table.AreWritable) (others : foreign.AreWritable) : entries.AreWritable := by
  intro entry member
  rcases List.mem_append.mp (isArranged.arranged.mem_iff.mp member) with setting | noise
  · exact table entry setting
  · exact others entry noise

end IsArranged

/-- The entries without those of some settings. -/
def without (dropped : List Variable) (entries : Entries) : Entries :=
  entries.filter fun entry => entry.1 ∉ dropped.map Variable.key

theorem key_injective : Function.Injective Variable.key := by
  intro first second same
  cases first <;> cases second <;> first | rfl | exact absurd same (by decide)

section

variable {α : Type} {read : Value → Option α} {dropped : List Variable}

theorem get?_without (dropped : List Variable) (entries : Entries) (key : Key) :
    (without dropped entries).get? key =
      if key ∈ dropped.map Variable.key then none else entries.get? key := by
  have filtered := Entries.get?_filter (fun key => key ∉ dropped.map Variable.key) entries key
  rw [without, filtered]
  by_cases left : key ∈ dropped.map Variable.key
  · simp [left]
  · simp [left]

/-- A setting that is dropped is absent, and one that is not is what it was. -/
theorem optional?_dropped {key : String} (dropped : List Variable) (setting : Variable)
    (named : key.toList = setting.key) {given : α}
    (present : entries.optional? read key = some (some given)) :
    (without dropped entries).optional? read key =
      some (if setting ∈ dropped then none else some given) := by
  have known : key.toList ∈ dropped.map Variable.key ↔ setting ∈ dropped := by
    rw [named, List.mem_map_of_injective key_injective]
  rw [Entries.optional?] at present ⊢
  rw [get?_without]
  by_cases left : setting ∈ dropped
  · rw [if_pos (known.mpr left), if_pos left]
  · rw [if_neg (mt known.mp left), if_neg left]
    exact present

/-- A key that belongs to no required setting is never dropped. -/
theorem optional?_kept {key : String} (required : ∀ setting ∈ dropped, setting ∈ Variable.required)
    (optional : key.toList ∉ Variable.required.map Variable.key) :
    (without dropped entries).optional? read key = entries.optional? read key := by
  have kept : key.toList ∉ dropped.map Variable.key := by
    intro member
    obtain ⟨setting, left, named⟩ := List.mem_map.mp member
    exact optional (List.mem_map.mpr ⟨setting, required setting left, named⟩)
  rw [Entries.optional?, get?_without, if_neg kept]
  rfl

/-- The draft of settings of which some are dropped. -/
def draftWithout (settings : Settings) (dropped : List Variable) : Draft :=
  { settings.toDraft with
    hashrate := if Variable.hashrate ∈ dropped then none else some settings.hashrate
    agentId := if Variable.agentId ∈ dropped then none else some settings.agentId
    seed := if Variable.seed ∈ dropped then none else some settings.seed }

theorem HeldBy.ofEntries?_without (held : HeldBy entries settings)
    (required : ∀ setting ∈ dropped, setting ∈ Variable.required) :
    Draft.ofEntries? (without dropped entries) = some (settings.draftWithout dropped) := by
  have hashrate := optional?_dropped dropped .hashrate rfl
    (Entries.optional?_present held.hashrate (long?_integer settings.hashrate))
  have agentId := optional?_dropped dropped .agentId rfl
    (Entries.optional?_present held.agentId (word?_integer settings.agentId))
  have seed := optional?_dropped dropped .seed rfl
    (Entries.optional?_present held.seed (long?_integer settings.seed))
  obtain ⟨level, levelRead, levelMeant⟩ := held.logLevel.optional? (level?_name settings.logLevel)
  obtain ⟨interval, intervalRead, intervalMeant⟩ :=
    held.reportInterval.optional? (long?_integer settings.reportInterval)
  have kept {α : Type} {read : Value → Option α} (key : String)
      (optional : key.toList ∉ Variable.required.map Variable.key) :
      (without dropped entries).optional? read key = entries.optional? read key :=
    optional?_kept required optional
  simp only [Draft.ofEntries?, hashrate, agentId, seed, kept "log_level" (by decide), levelRead,
    levelMeant, kept "log_file" (by decide), Entries.optional?_path held.logFile,
    kept "metrics_file" (by decide), Entries.optional?_path held.metricsFile,
    kept "error_metrics_file" (by decide), Entries.optional?_path held.errorReportFile,
    kept "report_interval_secs" (by decide), intervalRead, intervalMeant, Option.bind_eq_bind,
    Option.bind_some, Option.pure_def]
  rfl

/-- Exactly the required settings that are dropped are missing. -/
theorem missing_draftWithout (settings : Settings) (dropped : List Variable) :
    (settings.draftWithout dropped).missing =
      (Variable.required.filter fun setting => setting ∈ dropped).map Variable.name := by
  have lacks : ∀ setting ∈ Variable.required,
      (!(settings.draftWithout dropped).isPresent setting) = decide (setting ∈ dropped) := by
    intro setting member
    cases setting with
    | hashrate | agentId | seed =>
        simp only [draftWithout, Draft.isPresent]
        split <;> simp [*]
    | logLevel | logFile | metricsFile => exact absurd member (by decide)
  rw [Draft.missing, List.filter_congr lacks]

theorem complete_draftWithout (settings : Settings) (given : dropped ≠ [])
    (required : ∀ setting ∈ dropped, setting ∈ Variable.required) :
    (settings.draftWithout dropped).complete = .error (.configuration (.missing
      ((Variable.required.filter fun setting => setting ∈ dropped).map Variable.name))) := by
  have missing := missing_draftWithout settings dropped
  have lacks : (settings.draftWithout dropped).missing ≠ [] := by
    obtain ⟨setting, left⟩ := List.exists_mem_of_ne_nil dropped given
    rw [missing]
    refine List.ne_nil_of_mem (a := setting.name) (List.mem_map_of_mem ?_)
    exact List.mem_filter.mpr ⟨required setting left, decide_eq_true left⟩
  rw [Draft.complete_eq_missing lacks, missing]

end

/-- There is a document of these entries, and every one is read like that. -/
def AreRead (entries : Entries) (outcome : Except Fault Settings → Prop) : Prop :=
  (∃ text, FreeDocument text entries) ∧
    ∀ text, FreeDocument text entries → outcome (ofDocument (String.ofList text))

theorem ofDocument_repeated (document : FreeDocument text entries)
    (repeated : ¬ entries.keys.Nodup) :
    ∃ reason, ofDocument (String.ofList text) = .error (.toml reason) := by
  rw [ofDocument, String.toList_ofList, read?_document document, if_neg repeated]
  exact ⟨_, rfl⟩

/-- A document is read as the settings that it assigns, in whatever order and way its lines are
written and whatever else it assigns among them.  Without some of the required keys exactly
these are told to be missing, and a document that repeats a key is malformed. -/
theorem documents_read_in_any_order (settings : Settings) (valid : settings.IsValid)
    (hashrateFits : settings.hashrate.toNat < 2 ^ 63) (seedFits : settings.seed.toNat < 2 ^ 63)
    (intervalFits : settings.reportInterval.toNat < 2 ^ 63) (foreign entries : Entries)
    (isArranged : settings.IsArranged foreign entries) (writable : foreign.AreWritable) :
    AreRead entries (fun outcome => outcome = .ok settings) ∧
    (∀ dropped : List Variable, dropped ≠ [] →
      (∀ setting ∈ dropped, setting ∈ Variable.required) →
        AreRead (without dropped entries) fun outcome =>
          outcome = .error (.configuration (.missing
            ((Variable.required.filter fun setting => setting ∈ dropped).map Variable.name)))) ∧
    (∀ (front behind : Entries) (key : Key) (value : Value), entries = front ++ behind →
      key ∈ entries.keys → (∃ spelling, SpellsScalar value spelling) →
        AreRead (front ++ (key, value) :: behind) fun outcome =>
          ∃ reason, outcome = .error (.toml reason)) := by
  have distinct := isArranged.nodup
  have held := isArranged.heldBy
  have table := Entries.areWritable_of_writes
    (writes_table settings hashrateFits seedFits intervalFits)
  have written := isArranged.writable table writable
  refine ⟨⟨written.exists_document, ?whole⟩, ?dropped, ?again⟩
  case whole =>
    intro text document
    rw [ofDocument_held document distinct held]
    exact (check_eq_ok_iff settings settings).mpr ⟨valid, rfl⟩
  case dropped =>
    intro dropped given required
    have fewer : (without dropped entries).Sublist entries := List.filter_sublist
    have distinctFewer := (fewer.map Prod.fst).nodup distinct
    refine ⟨Entries.AreWritable.exists_document fun entry member =>
      written entry (fewer.mem member), fun text document => ?_⟩
    rw [ofDocument_described document distinctFewer (held.ofEntries?_without required)]
    exact complete_draftWithout settings given required
  case again =>
    rintro front behind key value rfl present spelled
    refine ⟨Entries.AreWritable.exists_document ?_, fun text document => ?_⟩
    · intro entry member
      rcases List.mem_cons.mp (List.perm_middle.mem_iff.mp member) with rfl | before
      · exact spelled
      · exact written entry before
    · refine ofDocument_repeated document fun nodup => ?_
      rw [Entries.keys_append] at nodup present
      exact (List.nodup_cons.mp (List.nodup_middle.mp nodup)).1 present

/-- Settings with the largest numbers and a path that cannot stand in a string as it is. -/
def unwieldy : Settings where
  hashrate := 9223372036854775807
  agentId := 4294967295
  seed := 0
  logLevel := .silent
  logFile := some "/tmp/\"agent\\\u0007é.log"
  metricsFile := none
  errorReportFile := some ""
  reportInterval := 5

/-- A key that is no setting. -/
def stray : Key × Value := ("x y".toList, .integer 255)

/-- The lines of the settings behind a comment and the stray key. -/
def cluttered : List Char :=
  "# agent".toList ++ (['\r', '\n'] ++ ("'x y' = 0xF_f".toList ++ (['\n'] ++
    unwieldy.document.toList)))

theorem document_cluttered : FreeDocument cluttered (stray :: unwieldy.table) := by
  have every {kind : Char → Bool} {text : List Char} (all : text.all kind) :
      ∀ char ∈ text, kind char := List.all_eq_true.mp all
  have comment : Margin "# agent".toList :=
    @Margin.comment [] " agent".toList (every rfl) (every rfl)
  have groups : Groups ['F', 'f'] ['F', '_', 'f'] := .gap 'F' (.last 'f')
  have value : SpellsInteger 255 ['0', 'x', 'F', '_', 'f'] :=
    @SpellsInteger.based 255 'x' 16 _ _ (by decide) groups (every rfl) (by decide)
  have name : NamesKey "x y".toList "'x y'".toList := .literal (every rfl)
  have assigns : FreeLine "'x y' = 0xF_f".toList (some stray) :=
    @FreeLine.pair [] _ [' '] [' '] _ [] _ _ (every rfl) name (every rfl) (every rfl)
      (.integer value (by decide)) (.blank (every rfl))
  have lines := (document_table unwieldy (by decide) (by decide) (by decide)).free
  exact .line (.empty comment) .carriage (.line assigns .feed lines)

theorem cluttered_document_read :
    unwieldy.IsArranged [stray] (stray :: unwieldy.table) ∧
    FreeDocument cluttered (stray :: unwieldy.table) ∧
    ofDocument (String.ofList cluttered) = .ok unwieldy ∧
    (∃ text, FreeDocument text (without [.seed, .hashrate] (stray :: unwieldy.table)) ∧
      ofDocument (String.ofList text) =
        .error (.configuration (.missing ["MINER_HASHRATE", "SIMULATION_SEED"]))) ∧
    ∃ text, FreeDocument text ((stray :: unwieldy.table) ++ [("agent_id".toList, .integer 1)]) ∧
      ∃ reason, ofDocument (String.ofList text) = .error (.toml reason) := by
  have integer (number : Int) (fits : fitsSigned number) :
      ∃ spelling, SpellsScalar (.integer number) spelling :=
    ⟨_, .integer (spellsInteger_integerText number) fits⟩
  have isArranged : unwieldy.IsArranged [stray] (stray :: unwieldy.table) :=
    ⟨(List.perm_append_singleton _ _).symm, List.nodup_singleton _, by decide⟩
  have writable : Entries.AreWritable [stray] :=
    List.forall_mem_singleton.mpr (integer 255 (by decide))
  obtain ⟨⟨-, whole⟩, dropped, again⟩ := documents_read_in_any_order unwieldy (by decide)
    (by decide) (by decide) (by decide) _ _ isArranged writable
  refine ⟨isArranged, document_cluttered, whole _ document_cluttered, ?_, ?_⟩
  · obtain ⟨⟨text, document⟩, told⟩ := dropped [.seed, .hashrate] (by decide) (by decide)
    exact ⟨text, document, told text document⟩
  · obtain ⟨⟨text, document⟩, told⟩ := again (stray :: unwieldy.table) [] "agent_id".toList
      (.integer 1) (List.append_nil _).symm (by decide) (integer 1 (by decide))
    exact ⟨text, document, told text document⟩

end Settings

end MiningAgent
