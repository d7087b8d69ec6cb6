import MiningAgent.Settings.Variables

/-!
# Drafts and what they complete to

A draft completes to settings exactly if it says all that they say and they are valid.
-/

namespace MiningAgent

variable {α β : Type} {ε : Type}

/-- A sequence succeeds exactly if its steps succeed one after the other. -/
theorem bind_eq_ok_iff {first : Except ε α} {rest : α → Except ε β} {result : β} :
    (first >>= rest) = .ok result ↔ ∃ value, first = .ok value ∧ rest value = .ok result := by
  cases first <;> simp [bind, Except.bind]

/-- A sequence fails where the first of its steps fails. -/
theorem bind_eq_error_iff {first : Except ε α} {rest : α → Except ε β} {fault : ε} :
    (first >>= rest) = .error fault ↔
      first = .error fault ∨ ∃ value, first = .ok value ∧ rest value = .error fault := by
  cases first <;> simp [bind, Except.bind]

namespace Settings

/-- The draft that says all that the settings say. -/
def toDraft (settings : Settings) : Draft where
  hashrate := some settings.hashrate
  agentId := some settings.agentId
  seed := some settings.seed
  logLevel := settings.logLevel
  logFile := settings.logFile
  metricsFile := settings.metricsFile
  errorReportFile := settings.errorReportFile
  reportInterval := settings.reportInterval

theorem complete_toDraft (settings : Settings) : settings.toDraft.complete = settings.check := rfl

theorem toDraft_injective : Function.Injective toDraft := by
  intro first second same
  cases first
  cases second
  simpa [toDraft] using same

namespace Draft

theorem complete_eq_ok_iff (draft : Draft) (settings : Settings) :
    draft.complete = .ok settings ↔ draft = settings.toDraft ∧ settings.IsValid := by
  constructor
  · intro completed
    obtain ⟨hashrate, agentId, seed, logLevel, logFile, metricsFile, errorReportFile,
      reportInterval⟩ := draft
    unfold complete at completed
    split at completed
    · rename_i given givenId givenSeed
      obtain ⟨valid, same⟩ := (check_eq_ok_iff _ _).mp completed
      cases given
      cases givenId
      cases givenSeed
      subst same
      exact ⟨rfl, valid⟩
    · cases completed
  · rintro ⟨rfl, valid⟩
    rw [complete_toDraft]
    exact (check_eq_ok_iff _ _).mpr ⟨valid, rfl⟩

theorem missing_ne_nil_iff {draft : Draft} :
    draft.missing ≠ [] ↔ draft.hashrate = none ∨ draft.agentId = none ∨ draft.seed = none := by
  obtain ⟨hashrate, agentId, seed⟩ := draft
  cases hashrate <;> cases agentId <;> cases seed <;>
    simp [missing, Variable.required, isPresent]

/-- A draft that lacks nothing says all that some settings say. -/
theorem exists_toDraft {draft : Draft} (whole : draft.missing = []) :
    ∃ settings : Settings, draft = settings.toDraft := by
  obtain ⟨_ | hashrate, _ | agentId, _ | seed⟩ := draft
  case some.some.some => exact ⟨⟨hashrate, agentId, seed, _, _, _, _, _⟩, rfl⟩
  all_goals cases whole

/-- What is missing is told all at once. -/
theorem complete_eq_missing {draft : Draft} (lacks : draft.missing ≠ []) :
    draft.complete = .error (.configuration (.missing draft.missing)) := by
  rw [missing_ne_nil_iff] at lacks
  unfold complete
  split
  · rename_i given givenId givenSeed
    simp [given, givenId, givenSeed] at lacks
  · rfl

theorem complete_lacking {draft : Draft}
    (lacks : draft.hashrate = none ∨ draft.agentId = none ∨ draft.seed = none) :
    draft.complete.toOption = none := by
  rw [complete_eq_missing (missing_ne_nil_iff.mpr lacks)]
  rfl

/-- What variables describe, setting by setting. -/
theorem ofVariables_eq_ok_iff (environment : Environment) (draft : Draft) :
    Draft.ofVariables environment = .ok draft ↔
      environment.read parseLong .hashrate = .ok draft.hashrate ∧
      environment.read parseWord .agentId = .ok draft.agentId ∧
      environment.read parseLong .seed = .ok draft.seed ∧
      (∃ level, environment.read parseLevel .logLevel = .ok level ∧
        draft.logLevel = level.getD .default) ∧
      draft.logFile = environment .logFile ∧ draft.metricsFile = environment .metricsFile ∧
      draft.errorReportFile = none ∧ draft.reportInterval = defaultReportInterval := by
  constructor
  · intro described
    obtain ⟨hashrate, hashrateRead, described⟩ := bind_eq_ok_iff.mp described
    obtain ⟨agentId, agentIdRead, described⟩ := bind_eq_ok_iff.mp described
    obtain ⟨seed, seedRead, described⟩ := bind_eq_ok_iff.mp described
    obtain ⟨level, levelRead, described⟩ := bind_eq_ok_iff.mp described
    cases described
    exact ⟨hashrateRead, agentIdRead, seedRead, ⟨level, levelRead, rfl⟩, rfl, rfl, rfl, rfl⟩
  · obtain ⟨hashrate, agentId, seed, logLevel, logFile, metricsFile, errorReportFile,
      reportInterval⟩ := draft
    rintro ⟨hashrateRead, agentIdRead, seedRead, ⟨level, levelRead, rfl⟩, rfl, rfl, rfl, rfl⟩
    refine bind_eq_ok_iff.mpr ⟨hashrate, hashrateRead, ?_⟩
    refine bind_eq_ok_iff.mpr ⟨agentId, agentIdRead, ?_⟩
    refine bind_eq_ok_iff.mpr ⟨seed, seedRead, ?_⟩
    exact bind_eq_ok_iff.mpr ⟨level, levelRead, rfl⟩

end Draft

theorem ofVariables_eq_ok_iff (environment : Environment) (settings : Settings) :
    ofVariables environment = .ok settings ↔
      Draft.ofVariables environment = .ok settings.toDraft ∧ settings.IsValid := by
  constructor
  · intro resolved
    obtain ⟨draft, described, completed⟩ := bind_eq_ok_iff.mp resolved
    obtain ⟨rfl, valid⟩ := (draft.complete_eq_ok_iff settings).mp completed
    exact ⟨described, valid⟩
  · rintro ⟨described, valid⟩
    have completed := (settings.toDraft.complete_eq_ok_iff settings).mpr ⟨rfl, valid⟩
    exact bind_eq_ok_iff.mpr ⟨settings.toDraft, described, completed⟩

end Settings

end MiningAgent
