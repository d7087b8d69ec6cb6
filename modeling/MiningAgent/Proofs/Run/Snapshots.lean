import MiningAgent.Proofs.Run.Growth
import MiningAgent.Proofs.Run.Loads

/-!
# Snapshots

An export loads one counter after the other while the agent goes on, so a snapshot need not be a
tally that the agent ever had.  But it is gathered from tallies that the agent had one after the
other, and no counter goes back.  So each counter lies between what it was when the export began
and what it was when the export ended.  Blocks are loaded before iterations, so a snapshot shows
no more blocks than iterations.
-/

namespace MiningAgent

/-- What an export has loaded that saw these tallies, one for each load. -/
def Tally.gather (seen : List Tally) : List UInt64 :=
  seen.foldl (fun loaded tally => tally.loadNext loaded) []

theorem Tally.gather_append (seen : List Tally) (tally : Tally) :
    gather (seen ++ [tally]) = tally.loadNext (gather seen) := by
  simp [gather]

theorem Tally.length_gather {seen : List Tally} (few : seen.length ≤ 6) :
    (gather seen).length = seen.length := by
  induction seen using List.reverseRecOn with
  | nil => rfl
  | append_singleton seen tally inductionHypothesis =>
      rw [List.length_append, List.length_singleton] at few ⊢
      have length := inductionHypothesis (by omega)
      rw [gather_append, length_loadNext _ (by omega), length]

/-- Six loads make a snapshot, in which each counter is from a tally of its own. -/
theorem Tally.ofCounters?_gather (first second third fourth fifth last : Tally) :
    ofCounters? (last.loadNext (gather [first, second, third, fourth, fifth])) =
      some ⟨first.blocksFound, second.iterations, third.peerBlocks, fourth.errors,
        fifth.miningTime, last.lastBlockTime⟩ := by
  simp [gather, loadNext, counters, ofCounters?]

/-- An unfinished export that began with one tally, if the agent has another now: the tallies that
it saw are between the two and in order, and none of them has more blocks than iterations. -/
structure Gathered (origin now : Tally) (loaded : List UInt64) (seen : List Tally) : Prop where
  loads : loaded = Tally.gather seen
  unfinished : seen.length < 6
  ordered : (origin :: seen).Pairwise Tally.AtMost
  latest : ∀ tally ∈ origin :: seen, tally.AtMost now
  covered : ∀ tally ∈ seen, tally.blocksFound ≤ tally.iterations

namespace Gathered

variable {origin now later tally : Tally} {loaded : List UInt64} {seen : List Tally}

theorem begin (risen : origin.AtMost now) : Gathered origin now [] [] where
  loads := rfl
  unfinished := by decide
  ordered := List.pairwise_singleton _ _
  latest := by simpa using risen
  covered := by simp

theorem wait (gathered : Gathered origin now loaded seen) (risen : now.AtMost later) :
    Gathered origin later loaded seen :=
  { gathered with latest := fun tally member => (gathered.latest tally member).trans risen }

theorem load (gathered : Gathered origin now loaded seen)
    (covered : now.blocksFound ≤ now.iterations)
    (incomplete : Tally.ofCounters? (now.loadNext loaded) = none) :
    Gathered origin now (now.loadNext loaded) (seen ++ [now]) where
  loads := by rw [Tally.gather_append, gathered.loads]
  unfinished := by
    have few := gathered.unfinished
    have more : (seen ++ [now]).length = seen.length + 1 := by simp
    have missing := Tally.length_of_ofCounters? incomplete
    rw [gathered.loads, ← Tally.gather_append, Tally.length_gather (by omega)] at missing
    omega
  ordered := by
    rw [← List.cons_append, List.pairwise_append]
    refine ⟨gathered.ordered, List.pairwise_singleton _ _, ?_⟩
    intro tally member last same
    rw [List.mem_singleton.mp same]
    exact gathered.latest tally member
  latest := by
    rw [← List.cons_append]
    intro tally member
    rcases List.mem_append.mp member with old | new
    · exact gathered.latest tally old
    · rw [List.mem_singleton.mp new]
      exact .refl now
  covered := by
    intro tally member
    rcases List.mem_append.mp member with old | new
    · exact gathered.covered tally old
    · rwa [List.mem_singleton.mp new]

theorem complete (gathered : Gathered origin now loaded seen)
    (completes : Tally.ofCounters? (now.loadNext loaded) = some tally) :
    origin.AtMost tally ∧ tally.AtMost now ∧ tally.blocksFound ≤ tally.iterations := by
  have few := gathered.unfinished
  have five : seen.length = 5 := by
    by_contra fewer
    have length : (Tally.gather seen).length = seen.length := Tally.length_gather (by omega)
    have missing : (now.loadNext loaded).length < 6 := by
      rw [gathered.loads, Tally.length_loadNext _ (by omega)]
      omega
    rw [Tally.ofCounters?_eq_none missing] at completes
    cases completes
  match seen, five with
  | [first, second, third, fourth, fifth], _ =>
      rw [gathered.loads, Tally.ofCounters?_gather] at completes
      cases completes
      obtain ⟨above, among⟩ := List.pairwise_cons.mp gathered.ordered
      have below := gathered.latest
      have inOrder : first.AtMost second := (List.pairwise_cons.mp among).1 second (by simp)
      refine ⟨⟨?_, ?_, ?_, ?_, ?_⟩, ⟨?_, ?_, ?_, ?_, ?_⟩, ?_⟩
      · exact (above first (by simp)).blocksFound
      · exact (above second (by simp)).iterations
      · exact (above third (by simp)).peerBlocks
      · exact (above fourth (by simp)).errors
      · exact (above fifth (by simp)).miningTime
      · exact (below first (by simp)).blocksFound
      · exact (below second (by simp)).iterations
      · exact (below third (by simp)).peerBlocks
      · exact (below fourth (by simp)).errors
      · exact (below fifth (by simp)).miningTime
      · exact UInt64.le_trans (gathered.covered first (by simp)) inOrder.iterations

end Gathered

namespace Engine

variable {middle finish : Engine} {history before after : History} {moment : Moment}
  {actor : Actor} {loaded : List UInt64} {tally : Tally} {agent : Agent} {stream : Generator}
  {path : Option String}

/-- An actor has loaded no counter for the export that it may be in. -/
def Unloaded (engine : Engine) (actor : Actor) : Prop :=
  ∀ loaded, engine.loaded? actor = some loaded → loaded = []

theorem unloaded_created :
    (created agent stream .initial .zero path).Unloaded actor := by
  intro loaded standing
  cases actor <;> cases standing

theorem Moment.Begins.unloaded (begins : moment.Begins actor)
    (made : moment.before.move? moment.move = some (moment.after, moment.events)) :
    moment.after.Unloaded actor := by
  intro loaded standing
  cases begins with
  | @asked caller call =>
      rw [call] at made
      obtain ⟨begun, entered, same⟩ := Option.map_eq_some_iff.mp made
      obtain ⟨after, _⟩ := Prod.mk.inj same
      unfold begin at entered
      split at entered
      · cases entered
        rw [← after, Engine.loaded?, setCaller_self] at standing
        cases standing
        rfl
      · cases entered
  | reporting stood stands =>
      rw [loaded?_of_reporting? stands] at standing
      cases standing
      rfl

theorem Moment.Exports.completes (exports : moment.Exports actor tally)
    (made : moment.before.move? moment.move = some (moment.after, moment.events))
    (sound : moment.before.Sound) :
    moment.after.loaded? actor = none ∧ ∃ loaded, moment.before.loaded? actor = some loaded ∧
      Tally.ofCounters? (moment.before.tally.loadNext loaded) = some tally := by
  cases exports with
  | returned returns =>
      obtain ⟨⟨circumstances, own⟩, shown⟩ := returns
      rw [own] at made
      cases stepCaller_shows sound made shown with
      | @exported loaded _ standing complete idle =>
          refine ⟨?_, loaded, ?_, complete⟩
          · rw [Engine.loaded?, idle]
            rfl
          · rw [Engine.loaded?, standing]
            rfl
      | answered other => exact absurd rfl (other tally)
  | reported stood stands =>
      refine ⟨loaded?_of_reporting? stands, _, loaded?_of_reporting? stood, ?_⟩
      cases move?_staged made stands with
      | entered fault first => cases first
      | kept before => cases stood.symm.trans before
      | passed before unfinished own same =>
          cases stood.symm.trans before
          simp only [stepReporting] at same
          split at same
          · rename_i complete
            cases same
            exact complete
          · cases same

theorem Moment.Exports.unloaded (exports : moment.Exports actor tally)
    (made : moment.before.move? moment.move = some (moment.after, moment.events))
    (sound : moment.before.Sound) : moment.after.Unloaded actor := by
  intro loaded standing
  cases (exports.completes made sound).1.symm.trans standing

/-- An actor has begun an export and has not completed one since. -/
def Underway (history : History) (actor : Actor) : Prop :=
  ∃ earlier begun during, history = earlier ++ begun :: during ∧ begun.Begins actor ∧
    ∀ moment ∈ during, ∀ tally, ¬ moment.Exports actor tally

theorem Underway.extend (underway : Underway history actor)
    (other : ∀ tally, ¬ moment.Exports actor tally) : Underway (history ++ [moment]) actor := by
  obtain ⟨earlier, begun, during, rfl, begins, none⟩ := underway
  refine ⟨earlier, begun, during ++ [moment], by simp, begins, ?_⟩
  intro later member
  rcases List.mem_append.mp member with old | new
  · exact none later old
  · rw [List.mem_singleton.mp new]
    exact other

theorem Reaches.underway
    (reached : (created agent stream .initial .zero path).Reaches history finish)
    (standing : finish.loaded? actor = some loaded) : Underway history actor := by
  induction reached generalizing loaded with
  | refl => cases actor <;> cases standing
  | @move history engine next move events reached made inductionHypothesis =>
      have others : ∀ tally, ¬ Moment.Exports ⟨engine, move, events, next⟩ actor tally := by
        intro tally exports
        have ended := (exports.completes made reached.tended.sound).1
        cases ended.symm.trans standing
      cases move?_loading made standing with
      | begun begins none => exact ⟨history, _, [], rfl, begins, by simp⟩
      | kept before => exact (inductionHypothesis before).extend others
      | longer before more incomplete same => exact (inductionHypothesis before).extend others

theorem Reaches.exported_of_writing {target : String}
    (reached : (created agent stream .initial .zero path).Reaches history finish)
    (standing : finish.reporting? actor = some (.writing target tally)) :
    ∃ ended ∈ history, ended.Exports actor tally := by
  induction reached with
  | refl => cases actor <;> cases standing
  | @move history engine next move events reached made inductionHypothesis =>
      cases move?_staged made standing with
      | entered fault first => cases first
      | kept before =>
          obtain ⟨ended, member, exports⟩ := inductionHypothesis before
          exact ⟨ended, List.mem_append_left _ member, exports⟩
      | @passed earlier circumstances before unfinished own same =>
          obtain ⟨loaded, rfl⟩ := stepReporting_writes same.symm
          exact ⟨_, List.mem_append_right _ (List.mem_singleton_self _),
            .reported before standing⟩

section Half

variable (early : (created agent stream .initial .zero path).Reaches before middle)
  (late : middle.Reaches after finish) (fewer : (before ++ after).length < 2 ^ 64)
include early late fewer

theorem atMost_of_reaches : middle.tally.AtMost finish.tally := by
  rw [List.length_append] at fewer
  have below := (early.rises below_created (by omega)).2
  exact (late.rises below (by omega)).1

/-- An actor that has loaded nothing yet gathers its export from tallies the agent has from then
on. -/
theorem gathered_of_reaches
    (unloaded : middle.Unloaded actor)
    (standing : finish.loaded? actor = some loaded) :
    ∃ seen, Gathered middle.tally finish.tally loaded seen := by
  induction late generalizing loaded with
  | refl =>
      rw [unloaded loaded standing]
      exact ⟨[], .begin (.refl _)⟩
  | @move after engine next move events late made inductionHypothesis =>
      have shorter : (before ++ after).length < 2 ^ 64 := by
        simp only [List.length_append, List.length_singleton] at fewer ⊢
        omega
      have reached := early.append late
      have risen : engine.tally.AtMost next.tally := by
        refine atMost_of_reaches reached (reaches_single made) ?_
        rwa [List.append_assoc]
      cases move?_loading made standing with
      | begun begins none =>
          subst none
          exact ⟨[], .begin (atMost_of_reaches early (late.move made) fewer)⟩
      | kept before =>
          obtain ⟨seen, gathered⟩ := inductionHypothesis shorter before
          exact ⟨seen, gathered.wait risen⟩
      | longer before more incomplete same =>
          obtain ⟨seen, gathered⟩ := inductionHypothesis shorter before
          subst more
          rw [same]
          exact ⟨_, gathered.load (reached.blocks_le_iterations shorter) incomplete⟩

end Half

/-- A snapshot, if its export loaded nothing before the agent came to `middle`. -/
theorem Moment.Exports.bounded (exports : moment.Exports actor tally)
    (made : moment.before.move? moment.move = some (moment.after, moment.events))
    (early : (created agent stream .initial .zero path).Reaches before middle)
    (late : middle.Reaches after moment.before) (fewer : (before ++ after).length < 2 ^ 64)
    (unloaded : middle.Unloaded actor) :
    middle.tally.AtMost tally ∧ tally.AtMost moment.before.tally ∧
      tally.blocksFound ≤ tally.iterations := by
  obtain ⟨_, loaded, standing, complete⟩ :=
    exports.completes made (early.append late).tended.sound
  obtain ⟨seen, gathered⟩ := gathered_of_reaches early late fewer unloaded standing
  exact gathered.complete complete

theorem Moment.Exports.covered (exports : moment.Exports actor tally)
    (made : moment.before.move? moment.move = some (moment.after, moment.events))
    (reached : (created agent stream .initial .zero path).Reaches before moment.before)
    (fewer : before.length < 2 ^ 64) :
    tally.AtMost moment.before.tally ∧ tally.blocksFound ≤ tally.iterations :=
  (exports.bounded made .refl reached fewer unloaded_created).2

/-- What the exports in a history show. -/
structure Sampled (history : History) : Prop where
  /-- Every export has begun. -/
  begun : ∀ before ended after actor tally, history = before ++ ended :: after →
    ended.Exports actor tally → Underway before actor
  /-- A snapshot lies between the counters at the beginning and at the end of its export. -/
  between : ∀ before begun during ended after actor tally,
    history = before ++ begun :: (during ++ ended :: after) →
    begun.Begins actor → ended.Exports actor tally →
    begun.after.tally.AtMost tally ∧ tally.AtMost ended.before.tally
  /-- What an actor exports later is not less. -/
  rising : ∀ before first during second after actor earlier later,
    history = before ++ first :: (during ++ second :: after) →
    first.Exports actor earlier → second.Exports actor later → earlier.AtMost later
  /-- No snapshot shows more blocks than iterations. -/
  covered : ∀ ended ∈ history, ∀ actor tally, ended.Exports actor tally →
    tally.blocksFound ≤ tally.iterations
  /-- A report that is written is such a snapshot. -/
  written : ∀ before moment after path report, history = before ++ moment :: after →
    .wrote path report ∈ moment.events → ∃ ended ∈ before, ∃ actor, ended.Exports actor report.tally

/-- While an agent is mining, the counters of a snapshot lie between those at the beginning and
at the end of its export, never go back from one export to the next, and show no more blocks than
iterations. -/
theorem snapshots_bounded_while_mining
    (reached : (created agent stream .initial .zero path).Reaches history finish)
    (fewer : history.length < 2 ^ 64) : Sampled history := by
  refine ⟨?_, ?_, ?_, ?_, ?_⟩
  · intro before ended after actor tally split exports
    subst split
    obtain ⟨here, made, _⟩ := reached.cut
    obtain ⟨_, loaded, standing, _⟩ := exports.completes made here.tended.sound
    exact here.underway standing
  · intro before begun during ended after actor tally split begins exports
    subst split
    obtain ⟨here, beginning, rest⟩ := reached.cut
    obtain ⟨between, made, _⟩ := rest.cut
    have unloaded := begins.unloaded beginning
    have shorter : (before ++ [begun] ++ during).length < 2 ^ 64 := by
      simp only [List.length_append, List.length_cons, List.length_nil] at fewer ⊢
      omega
    obtain ⟨above, below, _⟩ :=
      exports.bounded made (here.move beginning) between shorter unloaded
    exact ⟨above, below⟩
  · intro before first during second after actor earlier later split exports again
    subst split
    obtain ⟨here, made, rest⟩ := reached.cut
    obtain ⟨between, madeAgain, _⟩ := rest.cut
    simp only [List.length_append, List.length_cons] at fewer
    have unloaded := exports.unloaded made here.tended.sound
    have shorter : (before ++ [first]).length < 2 ^ 64 := by
      rw [List.length_append, List.length_singleton]
      omega
    have longer : (before ++ [first] ++ during).length < 2 ^ 64 := by
      simp only [List.length_append, List.length_singleton]
      omega
    have below := (exports.covered made here (by omega)).1
    have risen := atMost_of_reaches here (reaches_single made) shorter
    have above := (again.bounded madeAgain (here.move made) between longer unloaded).1
    exact below.trans (risen.trans above)
  · intro ended member actor tally exports
    obtain ⟨before, after, rfl⟩ := List.append_of_mem member
    obtain ⟨here, made, _⟩ := reached.cut
    rw [List.length_append] at fewer
    exact (exports.covered made here (by omega)).2
  · intro before moment after path report split wrote
    subst split
    obtain ⟨here, made, _⟩ := reached.cut
    obtain ⟨actor, tally, standing, rfl⟩ := move?_wrote here.tended.sound made wrote
    obtain ⟨ended, member, exports⟩ := here.exported_of_writing standing
    exact ⟨ended, member, actor, exports⟩

def returnedSnapshots (history : History) : List Tally :=
  history.flatMap fun moment => moment.events.filterMap fun event =>
    match event with
    | .returned (.exported tally) => some tally
    | _ => none

/-- A caller exports twice.  Behind its first load the worker finds a block, and behind its second
load another caller tells of a peer block. -/
def tornExport : List Move :=
  .call 0 (.start (.ofWallet "")) :: steps (.caller 0) 7 ++
    .call 2 .export :: steps (.caller 2) 1 ++ List.replicate 13 (.step (.worker 0) atSeven) ++
    steps (.caller 2) 1 ++ .call 1 (.peerBlock ⟨3, 1⟩) :: steps (.caller 1) 5 ++
    steps (.caller 2) 4 ++ .call 2 .export :: steps (.caller 2) 6

/-- The first snapshot is no tally that the agent ever had. -/
theorem torn_snapshot_bounded :
    (small.record tornExport).1.length < 2 ^ 64 ∧
      returnedSnapshots (small.record tornExport).1 =
        [⟨0, 1, 1, 0, 0, 7⟩, ⟨1, 1, 1, 0, 0, 7⟩] ∧
      ⟨0, 1, 1, 0, 0, 7⟩ ∉ (small.record tornExport).1.map (fun moment => moment.after.tally) ∧
      Sampled (small.record tornExport).1 := by
  have fewer : (small.record tornExport).1.length < 2 ^ 64 := by decide
  exact ⟨fewer, by decide, by decide,
    snapshots_bounded_while_mining (reaches_record tornExport) fewer⟩

end Engine

end MiningAgent
