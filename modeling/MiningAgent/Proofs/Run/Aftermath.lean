import MiningAgent.Proofs.Run.Alone
import MiningAgent.Proofs.Run.Locks
import MiningAgent.Proofs.Json.Faithfulness

/-!
# What a mining error leaves behind

Whoever handles an error counts it and writes at most one report, while all others go on.
-/

namespace MiningAgent

/-- Where a report is attempted. -/
def Event.attempt? : Event → Option String
  | .wrote path _ => some path
  | .logged (.errorReportFailed path _) => some path
  | _ => none

namespace Engine

/-- Whether a moment is a step of an actor. -/
def Moment.isOf (moment : Moment) (actor : Actor) : Bool :=
  match moment.move with
  | .step other _ => decide (other = actor)
  | _ => false

/-- The steps of one actor in a history. -/
def stepsOf (actor : Actor) (history : History) : History :=
  history.filter fun moment => moment.isOf actor

/-- Nobody but the actor changes the counters. -/
def Undisturbed (actor : Actor) (history : History) : Prop :=
  ∀ moment ∈ history, moment.isOf actor = false → moment.after.tally = moment.before.tally

/-- A history up to the next step of an actor, the step, and what follows it. -/
structure NextStep (actor : Actor) (standing : Engine → Prop) (start : Engine)
    (history : History) (finish : Engine) (earlier : History) (own : Moment) (later : History)
    (circumstances : Circumstances) : Prop where
  split : history = earlier ++ own :: later
  others : ∀ moment ∈ earlier, moment.isOf actor = false
  move : own.move = .step actor circumstances
  reached : start.Reaches earlier own.before
  stands : standing own.before
  taken : own.before.step actor circumstances = some (own.after, own.events)
  onward : own.after.Reaches later finish

variable {start engine next finish : Engine} {history earlier later : History} {actor : Actor}
  {number : Nat} {move : Move} {events : List Event} {own : Moment}
  {circumstances : Circumstances} {standing : Engine → Prop}

theorem Moment.exists_of_isOf {moment : Moment} (own : moment.isOf actor = true) :
    ∃ circumstances, moment.move = .step actor circumstances := by
  unfold isOf at own
  split at own
  · rename_i other circumstances made
    rw [of_decide_eq_true own] at made
    exact ⟨circumstances, made⟩
  · cases own

/-- While only others make steps, what they keep is kept. -/
theorem Reaches.kept_by_others
    (kept : ∀ {engine next move events}, standing engine →
      engine.move? move = some (next, events) →
      Moment.isOf ⟨engine, move, events, next⟩ actor = false → standing next)
    (reached : start.Reaches history finish) (holds : standing start)
    (others : ∀ moment ∈ history, moment.isOf actor = false) : standing finish :=
  (reached.keeps_along kept holds others).1

/-- An actor stands where it stood until its next step, if it makes one. -/
theorem Reaches.first_step
    (kept : ∀ {engine next move events}, standing engine →
      engine.move? move = some (next, events) →
      Moment.isOf ⟨engine, move, events, next⟩ actor = false → standing next)
    (reached : start.Reaches history finish) (holds : standing start) :
    (stepsOf actor history = [] ∧ standing finish) ∨
      ∃ earlier own later circumstances,
        NextStep actor standing start history finish earlier own later circumstances := by
  cases found : history.find? fun moment => moment.isOf actor with
  | none =>
      have others : ∀ moment ∈ history, moment.isOf actor = false := by
        simpa using List.find?_eq_none.mp found
      exact .inl ⟨by simpa [stepsOf] using others, reached.kept_by_others kept holds others⟩
  | some own =>
      obtain ⟨mine, earlier, later, split, apart⟩ := List.find?_eq_some_iff_append.mp found
      obtain ⟨circumstances, move⟩ := own.exists_of_isOf mine
      rw [split] at reached
      obtain ⟨before, made, onward⟩ := reached.cut
      have others : ∀ moment ∈ earlier, moment.isOf actor = false := by simpa using apart
      rw [move] at made
      exact .inr ⟨earlier, own, later, circumstances, split, others, move, before,
        before.kept_by_others kept holds others, made, onward⟩

theorem Reaches.tally_eq (reached : start.Reaches history finish)
    (same : ∀ moment ∈ history, moment.after.tally = moment.before.tally) :
    finish.tally = start.tally := by
  induction reached with
  | refl => rfl
  | move _ _ inductionHypothesis =>
      have last := same _ (List.mem_append_right _ (List.mem_singleton_self _))
      exact last.trans (inductionHypothesis fun moment member =>
        same moment (List.mem_append_left _ member))

namespace NextStep

theorem isOf (step : NextStep actor standing start history finish earlier own later
    circumstances) : own.isOf actor = true := by
  simp [Moment.isOf, step.move]

theorem stepsOf_eq (step : NextStep actor standing start history finish earlier own later
    circumstances) : stepsOf actor history = own :: stepsOf actor later := by
  have none : stepsOf actor earlier = [] := by
    simpa [stepsOf] using step.others
  rw [step.split, stepsOf, List.filter_append, ← stepsOf, none]
  simp [stepsOf, step.isOf]

theorem tally_eq (step : NextStep actor standing start history finish earlier own later
    circumstances) (undisturbed : Undisturbed actor history) :
    own.before.tally = start.tally := by
  apply step.reached.tally_eq
  intro moment member
  refine undisturbed moment ?_ (step.others moment member)
  rw [step.split]
  exact List.mem_append_left _ member

theorem undisturbed (step : NextStep actor standing start history finish earlier own later
    circumstances) (undisturbed : Undisturbed actor history) : Undisturbed actor later := by
  intro moment member
  apply undisturbed
  rw [step.split]
  exact List.mem_append_right _ (List.mem_cons_of_mem _ member)

theorem within (step : NextStep actor standing start history finish earlier own later
    circumstances) {property : Moment → Prop} (all : ∀ moment ∈ history, property moment) :
    ∀ moment ∈ later, property moment := by
  intro moment member
  apply all
  rw [step.split]
  exact List.mem_append_right _ (List.mem_cons_of_mem _ member)

end NextStep

/-- Others leave an actor where it is in its handling of an error. -/
theorem reporting?_kept {stage : Reporting} (standing : engine.reporting? actor = some stage)
    (made : engine.move? move = some (next, events))
    (apart : Moment.isOf ⟨engine, move, events, next⟩ actor = false) :
    next.reporting? actor = some stage := by
  cases actor with
  | caller number =>
      have elsewhere : move.caller? ≠ some number := by
        intro about
        cases move?_cases made with
        | call idle =>
            cases about
            simp [reporting?, idle, Activity.reporting?] at standing
        | failSpawn deciding vacant =>
            cases about
            simp [reporting?, deciding, Activity.reporting?] at standing
        | setReportPath => cases about
        | caller taken =>
            cases about
            simp [Moment.isOf] at apart
        | worker taken => cases about
      simpa only [reporting?, move?_callers made elsewhere] using standing
  | worker number =>
      obtain ⟨worker, found, stands⟩ := Option.bind_eq_some_iff.mp standing
      obtain ⟨later, there, ⟨circumstances, rfl, _⟩ | ⟨_, touched⟩⟩ := move?_worker made found
      · simp [Moment.isOf] at apart
      · simp only [reporting?, there, Option.bind_some, touched.position, stands]

/-- A next step in the handling of an error. -/
structure NextStage (actor : Actor) (stage : Reporting) (start : Engine) (history : History)
    (finish : Engine) (earlier : History) (own : Moment) (later : History)
    (circumstances : Circumstances) : Prop
    extends NextStep actor (fun engine => engine.reporting? actor = some stage) start history
      finish earlier own later circumstances where
  after : own.after = (own.before.stepReporting circumstances stage).2.1.setReporting actor
    (own.before.stepReporting circumstances stage).1
  events : own.events = (own.before.stepReporting circumstances stage).2.2

theorem Reaches.next_stage {stage last : Reporting} (reached : start.Reaches history finish)
    (standing : start.reporting? actor = some stage) (unfinished : stage ≠ .done)
    (ended : finish.reporting? actor = some last) (moved : last ≠ stage) :
    ∃ earlier own later circumstances,
      NextStage actor stage start history finish earlier own later circumstances := by
  rcases reached.first_step reporting?_kept standing with ⟨_, still⟩ | found
  · exact absurd (Option.some.inj (ended.symm.trans still)) moved
  · obtain ⟨earlier, own, later, circumstances, step⟩ := found
    have taken := step.taken
    rw [step_reporting step.stands unfinished circumstances] at taken
    obtain ⟨after, events⟩ := Prod.mk.inj (Option.some.inj taken)
    exact ⟨earlier, own, later, circumstances, step, after.symm, events.symm⟩

/-- The moment does nothing but move its actor on in its handling of an error. -/
def Moment.Passes (actor : Actor) (moment : Moment) : Prop :=
  ∃ stage, moment.after = moment.before.setReporting actor stage

/-- The steps that an actor still makes for the report of an error.  If there is a path, the
last of them attempts to write what the others loaded; if there is none, there are no steps. -/
inductive Reported (actor : Actor) (steps : History) (told : Tally → Prop) : Option String → Prop
  | unreported (ended : steps = []) : Reported actor steps told none
  | attempted {path : String} {loads : History} {written : Moment}
      {circumstances : Circumstances} {tally : Tally} (split : steps = loads ++ [written])
      (silent : ∀ moment ∈ loads, moment.events = [])
      (move : written.move = .step actor circumstances)
      (events : written.events = written.before.writing path tally circumstances.writeFailure)
      (tells : told tally) :
      Reported actor steps told (some path)

theorem Reported.imp {steps : History} {told known : Tally → Prop} {target : Option String}
    (reported : Reported actor steps told target) (tells : ∀ tally, told tally → known tally) :
    Reported actor steps known target := by
  cases reported with
  | unreported ended => exact .unreported ended
  | attempted split silent move events told =>
      exact .attempted split silent move events (tells _ told)

theorem Reported.cons {steps : History} {told : Tally → Prop} {path : String}
    (reported : Reported actor steps told (some path)) (silent : own.events = []) :
    Reported actor (own :: steps) told (some path) := by
  cases reported with
  | @attempted _ loads written circumstances tally split quiet move events told =>
      have all : ∀ moment ∈ own :: loads, moment.events = [] := by simpa [silent] using quiet
      have steps : own :: steps = (own :: loads) ++ [written] := by rw [split]; rfl
      exact .attempted steps all move events told

theorem Moment.Passes.cons {steps : History} (passes : own.Passes actor)
    (rest : ∀ moment ∈ steps, moment.Passes actor) :
    ∀ moment ∈ own :: steps, moment.Passes actor := by
  intro moment member
  rcases List.mem_cons.mp member with rfl | later
  · exact passes
  · exact rest moment later

/-- The actor has not yet gone on from the end of its handling of an error. -/
def Inside (actor : Actor) (history : History) : Prop :=
  ∀ moment ∈ history, moment.isOf actor = true → moment.before.reporting? actor ≠ some .done

variable {path : String} {loaded : List UInt64}

/-- An actor that has handled an error makes no step before it goes on. -/
theorem Reaches.no_steps (reached : start.Reaches history finish)
    (handled : start.reporting? actor = some .done) (inside : Inside actor history) :
    stepsOf actor history = [] := by
  rcases reached.first_step reporting?_kept handled with ⟨none, _⟩ | found
  · exact none
  · obtain ⟨earlier, own, later, circumstances, step⟩ := found
    refine absurd step.stands (inside own ?_ step.isOf)
    rw [step.split]
    simp

theorem Reaches.writes {tally : Tally} {told : Tally → Prop}
    (reached : start.Reaches history finish)
    (standing : start.reporting? actor = some (.writing path tally))
    (ended : finish.reporting? actor = some .done) (inside : Inside actor history)
    (tells : told tally) :
    Reported actor (stepsOf actor history) told (some path) ∧
      ∀ moment ∈ stepsOf actor history, moment.Passes actor := by
  obtain ⟨earlier, own, later, circumstances, stage⟩ :=
    reached.next_stage standing (by simp) ended (by simp)
  have after := stage.after
  have events := stage.events
  rw [stepReporting_writing] at after events
  have handled : own.after.reporting? actor = some .done := by
    rw [after]
    exact reporting?_setReporting stage.stands _
  have rest := stage.onward.no_steps handled (stage.within inside)
  rw [stage.stepsOf_eq, rest]
  have passes : own.Passes actor := ⟨_, after⟩
  exact ⟨.attempted (List.nil_append _).symm (by simp) stage.move events tells,
    passes.cons (by simp)⟩

theorem Reaches.next_load (reached : start.Reaches history finish)
    (standing : start.reporting? actor = some (.loading path loaded))
    (missing : loaded.length < 6) (ended : finish.reporting? actor = some .done) :
    ∃ earlier own later circumstances more,
      NextStage actor (.loading path loaded) start history finish earlier own later
          circumstances ∧
        more.length = loaded.length + 1 ∧ own.events = [] ∧
        own.after = own.before.setReporting actor
          ((Tally.ofCounters? more).elim (.loading path more) (.writing path)) ∧
        (Undisturbed actor history → loaded = start.tally.counters.take loaded.length →
          more = start.tally.counters.take more.length) := by
  obtain ⟨earlier, own, later, circumstances, stage⟩ :=
    reached.next_stage standing (by simp) ended (by simp)
  have longer := own.before.tally.length_loadNext missing
  have loads : own.before.stepReporting circumstances (.loading path loaded) =
      ((Tally.ofCounters? (own.before.tally.loadNext loaded)).elim
        (.loading path (own.before.tally.loadNext loaded)) (.writing path), own.before, []) := by
    simp only [stepReporting]
    cases Tally.ofCounters? (own.before.tally.loadNext loaded) <;> rfl
  have after := stage.after
  have events := stage.events
  rw [loads] at after events
  refine ⟨earlier, own, later, circumstances, _, stage, longer, events, after, ?_⟩
  intro undisturbed exactly
  rw [longer, stage.tally_eq undisturbed]
  have next := start.tally.loadNext_take loaded.length missing
  rwa [← exactly] at next

/-- From the first counter that is still to be loaded on.  The counters that are written are
those of one moment if nobody changes them while they are loaded. -/
theorem Reaches.loads (left : Nat) (together : loaded.length + left = 5)
    (reached : start.Reaches history finish)
    (standing : start.reporting? actor = some (.loading path loaded))
    (ended : finish.reporting? actor = some .done) (inside : Inside actor history) :
    Reported actor (stepsOf actor history)
        (fun tally => Undisturbed actor history →
          loaded = start.tally.counters.take loaded.length → tally = start.tally)
        (some path) ∧
      ∀ moment ∈ stepsOf actor history, moment.Passes actor := by
  induction left generalizing loaded start history with
  | zero =>
      obtain ⟨earlier, own, later, circumstances, more, stage, longer, silent, after, still⟩ :=
        reached.next_load standing (by omega) ended
      have six : more.length = 6 := by omega
      obtain ⟨tally, complete⟩ : ∃ tally, Tally.ofCounters? more = some tally := by
        apply Option.ne_none_iff_exists'.mp
        intro incomplete
        exact Tally.length_of_ofCounters? incomplete six
      rw [complete, Option.elim_some] at after
      have stands := reporting?_setReporting stage.stands (.writing path tally)
      rw [← after] at stands
      let known : Tally → Prop := fun tally => Undisturbed actor history →
        loaded = start.tally.counters.take loaded.length → tally = start.tally
      have tells : known tally := by
        intro undisturbed soFar
        rw [still undisturbed soFar, six] at complete
        exact (Option.some.inj complete).symm
      obtain ⟨rest, passes⟩ := stage.onward.writes stands ended (stage.within inside) tells
      rw [stage.stepsOf_eq]
      exact ⟨rest.cons silent, Moment.Passes.cons ⟨_, after⟩ passes⟩
  | succ left inductionHypothesis =>
      obtain ⟨earlier, own, later, circumstances, more, stage, longer, silent, after, still⟩ :=
        reached.next_load standing (by omega) ended
      have missing : more.length < 6 := by omega
      rw [Tally.ofCounters?_eq_none missing, Option.elim_none] at after
      have stands := reporting?_setReporting stage.stands (.loading path more)
      rw [← after] at stands
      obtain ⟨rest, passes⟩ := inductionHypothesis (by omega) stage.onward stands
        (stage.within inside)
      rw [stage.stepsOf_eq]
      refine ⟨(rest.imp ?_).cons silent, Moment.Passes.cons ⟨_, after⟩ passes⟩
      intro tally tells undisturbed soFar
      have same : own.after.tally = start.tally := by
        rw [after, setReporting_tally, stage.tally_eq undisturbed]
      rw [same] at tells
      exact tells (stage.undisturbed undisturbed) (still undisturbed soFar)

/-! ## The whole handling -/

/-- How an actor handles an error: one step counts it, the next tells of it, and the others are
those of its report.  Nothing else changes, but for the place of the actor. -/
structure Handled (actor : Actor) (fault : Fault) (history earlier : History)
    (counted : Moment) (later : History) (judged : Moment) (report : History) : Prop where
  split : history = earlier ++ counted :: later
  others : ∀ moment ∈ earlier, moment.isOf actor = false
  counts : counted.after = ({ counted.before with
    tally := counted.before.tally.countError }).setReporting actor (.judging fault)
  silent : counted.events = []
  steps : stepsOf actor history = counted :: judged :: report
  passes : ∀ moment ∈ judged :: report, moment.Passes actor
  tells : judged.events = [.logged (.miningError fault)]
  reported : Reported actor report
    (fun tally => Undisturbed actor later → tally = counted.after.tally)
    (judged.before.reportTarget fault)

theorem Reaches.handles {fault : Fault} (reached : start.Reaches history finish)
    (standing : start.reporting? actor = some (.counting fault))
    (ended : finish.reporting? actor = some .done) (inside : Inside actor history) :
    ∃ earlier counted later judged report,
      Handled actor fault history earlier counted later judged report ∧
        (Undisturbed actor history → counted.after.tally = start.tally.countError) := by
  obtain ⟨earlier, counted, later, _, counts⟩ :=
    reached.next_stage standing (by simp) ended (by simp)
  have told : counted.after.reporting? actor = some (.judging fault) := by
    rw [counts.after]
    exact reporting?_setReporting ((reporting?_tally _ _ _).trans counts.stands) _
  obtain ⟨between, judged, rest, circumstances, judges⟩ :=
    counts.onward.next_stage told (by simp) ended (by simp)
  have after := judges.after
  have events := judges.events
  rw [stepReporting_judging] at after events
  have insideRest := judges.within (counts.within inside)
  have report : Reported actor (stepsOf actor rest)
      (fun tally => Undisturbed actor later → tally = counted.after.tally)
      (judged.before.reportTarget fault) ∧
        ∀ moment ∈ stepsOf actor rest, moment.Passes actor := by
    have stands := reporting?_setReporting judges.stands
      ((judged.before.reportTarget fault).elim .done fun path => .loading path [])
    rw [← after] at stands
    cases target : judged.before.reportTarget fault with
    | none =>
        rw [target] at stands
        have none := judges.onward.no_steps stands insideRest
        rw [none]
        exact ⟨.unreported rfl, by simp⟩
    | some path =>
        rw [target] at stands
        obtain ⟨report, passes⟩ := judges.onward.loads 5 rfl stands ended insideRest
        refine ⟨report.imp ?_, passes⟩
        intro tally tells undisturbed
        rw [tells (judges.undisturbed undisturbed) rfl, after, setReporting_tally,
          judges.tally_eq undisturbed]
  refine ⟨earlier, counted, later, judged, stepsOf actor rest,
    { split := counts.split
      others := counts.others
      counts := counts.after
      silent := counts.events
      steps := by rw [counts.stepsOf_eq, judges.stepsOf_eq]
      passes := Moment.Passes.cons ⟨_, after⟩ report.2
      tells := events
      reported := report.1 }, ?_⟩
  intro undisturbed
  rw [counts.after, setReporting_tally, ← counts.tally_eq undisturbed]
  rfl

theorem Reaches.agent_before {moment : Moment} (reached : start.Reaches history finish)
    (member : moment ∈ history) : moment.before.agent = start.agent := by
  obtain ⟨before, after, rfl⟩ := List.append_of_mem member
  exact reached.cut.1.agent

/-- Every report that the steps write tells of these counters of this agent, and its file holds
that report. -/
def Discloses (agent : Agent) (tally : Tally) (steps : History) : Prop :=
  ∀ moment ∈ steps, ∀ path report, .wrote path report ∈ moment.events →
    report = .ofTally agent.identity.agentId agent.hashrate.perSecond tally ∧
      Report.coding.decode? report.fileText = some report

theorem Handled.discloses {fault : Fault} {counted judged : Moment} {report : History}
    (handled : Handled actor fault history earlier counted later judged report)
    (reached : start.Reaches history finish) (undisturbed : Undisturbed actor later) :
    Discloses start.agent counted.after.tally report := by
  intro moment member path disclosed wrote
  refine ⟨?_, Report.isFaithful.file_decodes disclosed trivial⟩
  have inside : moment ∈ history := by
    have mine : moment ∈ stepsOf actor history := by
      rw [handled.steps]
      exact List.mem_cons_of_mem _ (List.mem_cons_of_mem _ member)
    exact List.mem_of_mem_filter mine
  have reported := handled.reported
  generalize judged.before.reportTarget fault = target at reported
  cases reported with
  | unreported ended =>
      rw [ended] at member
      cases member
  | attempted split silent move events tells =>
      rw [split] at member
      rcases List.mem_append.mp member with load | last
      · rw [silent moment load] at wrote
        cases wrote
      · cases List.mem_singleton.mp last
        rw [events, tells undisturbed] at wrote
        unfold writing at wrote
        split at wrote
        · simp only [List.mem_cons, Event.wrote.injEq, List.not_mem_nil, or_false,
            reduceCtorEq] at wrote
          rw [wrote.2, Engine.report, reached.agent_before inside]
        · simp at wrote

/-- The attempts of some steps to write a report, by path. -/
def attempts (steps : History) : List String :=
  steps.flatMap fun moment => moment.events.filterMap Event.attempt?

theorem Reported.attempts_eq {steps : History} {told : Tally → Prop} {target : Option String}
    (reported : Reported actor steps told target) : attempts steps = target.toList := by
  cases reported with
  | unreported ended =>
      rw [ended]
      rfl
  | @attempted path loads written circumstances tally split silent move events tells =>
      have quiet : attempts loads = [] := by
        apply List.flatMap_eq_nil_iff.mpr
        intro moment member
        rw [silent moment member]
        rfl
      rw [split, attempts, List.flatMap_append, ← attempts, quiet]
      simp only [List.flatMap_cons, List.flatMap_nil, List.append_nil, List.nil_append, events,
        writing]
      cases circumstances.writeFailure <;> rfl

/-- An error is reported if it is fatal and there is a path, and then once. -/
theorem Handled.attempts_eq {fault : Fault} {counted judged : Moment} {report : History}
    (handled : Handled actor fault history earlier counted later judged report) :
    attempts (stepsOf actor history) = (judged.before.reportTarget fault).toList := by
  rw [handled.steps, ← handled.reported.attempts_eq]
  simp only [attempts, List.flatMap_cons, handled.silent, handled.tells]
  rfl

def position? (engine : Engine) (number : Nat) : Option Position :=
  (engine.workers[number]?).map Worker.position

theorem position?_kept {position : Position} (standing : engine.position? number = some position)
    (made : engine.move? move = some (next, events))
    (apart : Moment.isOf ⟨engine, move, events, next⟩ (.worker number) = false) :
    next.position? number = some position := by
  obtain ⟨worker, found, stands⟩ := Option.map_eq_some_iff.mp standing
  obtain ⟨later, there, ⟨circumstances, rfl, _⟩ | ⟨_, touched⟩⟩ := move?_worker made found
  · simp [Moment.isOf] at apart
  · rw [position?, there, Option.map_some, touched.position, stands]

theorem reporting?_of_position? {position : Position}
    (standing : engine.position? number = some position) :
    engine.reporting? (.worker number) = position.reporting? := by
  obtain ⟨worker, found, rfl⟩ := Option.map_eq_some_iff.mp standing
  simp only [reporting?, found, Option.bind_some]

theorem position?_moveWorker {position : Position}
    (present : ∃ worker, engine.workers[number]? = some worker) :
    (engine.moveWorker number position).position? number = some position := by
  obtain ⟨worker, found⟩ := present
  simp [position?, found]

variable {retirement : Retirement} {fault : Fault}

/-- A worker's step in giving up its run. -/
theorem retiring_cases (standing : engine.position? number = some (.retiring retirement fault))
    (unfinished : retirement ≠ .done)
    (taken : engine.step (.worker number) circumstances = some (next, events)) :
    ∃ after changed,
      engine.stepRetirement (.worker number) circumstances retirement = some (after, changed) ∧
        next = changed.moveWorker number (.retiring after fault) ∧
        next.position? number = some (.retiring after fault) := by
  obtain ⟨worker, found, stands⟩ := Option.map_eq_some_iff.mp standing
  rw [step_retiring found stands unfinished] at taken
  obtain ⟨⟨after, changed⟩, given, same⟩ := Option.map_eq_some_iff.mp taken
  cases same
  obtain ⟨mailbox, _, present⟩ := stepRetirement_worker given found
  exact ⟨after, changed, given, rfl, position?_moveWorker ⟨_, present⟩⟩

/-- A worker that gives up its run goes on to handle the fault that ended it. -/
theorem Reaches.next_retiring (reached : start.Reaches history finish)
    (standing : start.position? number = some (.retiring retirement fault))
    (ended : finish.reporting? (.worker number) = some .done) :
    ∃ earlier own later circumstances,
      NextStep (.worker number)
        (fun engine => engine.position? number = some (.retiring retirement fault)) start history
        finish earlier own later circumstances := by
  rcases reached.first_step position?_kept standing with ⟨_, still⟩ | found
  · rw [reporting?_of_position? still] at ended
    cases ended
  · exact found

theorem claiming_own {run : Run} (standing : engine.position? number =
      some (.retiring (.claiming run.generation) fault))
    (active : engine.slot.active = some run)
    (taken : engine.step (.worker number) circumstances = some (next, events)) :
    next = ({ engine with slot := { engine.slot with active := none } }).moveWorker number
        (.retiring (.accounting run) fault) ∧
      next.position? number = some (.retiring (.accounting run) fault) := by
  obtain ⟨after, changed, given, moved, stands⟩ := retiring_cases standing (by simp) taken
  simp only [stepRetirement, active, if_true] at given
  cases given
  exact ⟨moved, stands⟩

theorem accounting_own {run : Run} (standing : engine.position? number =
      some (.retiring (.accounting run) fault))
    (taken : engine.step (.worker number) circumstances = some (next, events)) :
    next = (({ engine with
          tally := engine.tally.addMiningTime (run.started.elapsed circumstances.now) }).disconnect
        run.worker).moveWorker number (.retiring .unlocking fault) ∧
      next.position? number = some (.retiring .unlocking fault) := by
  obtain ⟨after, changed, given, moved, stands⟩ := retiring_cases standing (by simp) taken
  cases given
  exact ⟨moved, stands⟩

theorem unlocking_own (standing : engine.position? number = some (.retiring .unlocking fault))
    (taken : engine.step (.worker number) circumstances = some (next, events)) :
    next = ({ engine with slotHolder := none }).moveWorker number (.retiring .done fault) ∧
      next.position? number = some (.retiring .done fault) := by
  obtain ⟨after, changed, given, moved, stands⟩ := retiring_cases standing (by simp) taken
  cases given
  exact ⟨moved, stands⟩

/-- A worker that has given up its run turns to the fault that ended it. -/
theorem turning_own (standing : engine.position? number = some (.retiring .done fault))
    (taken : engine.step (.worker number) circumstances = some (next, events)) :
    next = engine.moveWorker number (.dying (.counting fault)) ∧
      next.reporting? (.worker number) = some (.counting fault) := by
  obtain ⟨worker, found, stands⟩ := Option.map_eq_some_iff.mp standing
  simp only [Engine.step, stepWorker, found, stands] at taken
  cases taken
  refine ⟨rfl, ?_⟩
  rw [reporting?_of_position? (position?_moveWorker ⟨worker, found⟩)]
  rfl

/-- How a worker leaves a run that it has claimed: the time of the run is counted, the slot lock
is given back, and the fault that ended the run is handled. -/
inductive Exits (number : Nat) (run : Run) (fault : Fault) (claimed : Moment) (history : History) :
    Prop
  | intro {accounted unlocked turned counted judged : Moment}
      {rest earlier later report : History} {circumstances : Circumstances}
      (claims : claimed.after = ({ claimed.before with
        slot := { claimed.before.slot with active := none } }).moveWorker number
          (.retiring (.accounting run) fault))
      (accounting : accounted.move = .step (.worker number) circumstances)
      (accounts : accounted.after = (({ accounted.before with
        tally := accounted.before.tally.addMiningTime
          (run.started.elapsed circumstances.now) }).disconnect run.worker).moveWorker number
          (.retiring .unlocking fault))
      (unlocks : unlocked.after =
        ({ unlocked.before with slotHolder := none }).moveWorker number (.retiring .done fault))
      (turns : turned.after = turned.before.moveWorker number (.dying (.counting fault)))
      (steps : stepsOf (.worker number) history =
        accounted :: unlocked :: turned :: stepsOf (.worker number) rest)
      (handled : Handled (.worker number) fault rest earlier counted later judged report)
      (discloses : Undisturbed (.worker number) history →
        Discloses claimed.before.agent (claimed.before.tally.addMiningTime
          (run.started.elapsed circumstances.now)).countError report) :
      Exits number run fault claimed history

theorem Reaches.exits {run : Run} {claimed : Moment}
    (reached : claimed.after.Reaches history finish)
    (claiming : claimed.move = .step (.worker number) circumstances)
    (made : claimed.before.move? claimed.move = some (claimed.after, claimed.events))
    (standing : claimed.before.position? number =
      some (.retiring (.claiming run.generation) fault))
    (active : claimed.before.slot.active = some run)
    (ended : finish.reporting? (.worker number) = some .done)
    (inside : Inside (.worker number) history) :
    Exits number run fault claimed history := by
  have agent := move?_agent made
  rw [claiming] at made
  obtain ⟨claims, stands⟩ := claiming_own standing active made
  obtain ⟨_, accounted, afterAccounted, now, first⟩ := reached.next_retiring stands ended
  obtain ⟨accounts, stands⟩ := accounting_own first.stands first.taken
  obtain ⟨_, unlocked, afterUnlocked, _, second⟩ := first.onward.next_retiring stands ended
  obtain ⟨unlocks, stands⟩ := unlocking_own second.stands second.taken
  obtain ⟨_, turned, rest, _, third⟩ := second.onward.next_retiring stands ended
  obtain ⟨turns, stands⟩ := turning_own third.stands third.taken
  have insideRest : Inside (.worker number) rest :=
    third.within (second.within (first.within inside))
  obtain ⟨earlier, counted, later, judged, report, handled, counts⟩ :=
    third.onward.handles stands ended insideRest
  refine .intro claims first.move accounts unlocks turns ?_ handled ?_
  · rw [first.stepsOf_eq, second.stepsOf_eq, third.stepsOf_eq]
  · intro undisturbed
    have afterFirst := first.undisturbed undisturbed
    have afterSecond := second.undisturbed afterFirst
    have afterThird := third.undisturbed afterSecond
    have tally : counted.after.tally = (claimed.before.tally.addMiningTime
        (run.started.elapsed now.now)).countError := by
      have turnedKept : turned.after.tally = turned.before.tally := by rw [turns]; rfl
      have unlockedKept : unlocked.after.tally = unlocked.before.tally := by rw [unlocks]; rfl
      have claimedKept : claimed.after.tally = claimed.before.tally := by rw [claims]; rfl
      have accountedAdds : accounted.after.tally = accounted.before.tally.addMiningTime
          (run.started.elapsed now.now) := by rw [accounts]; rfl
      rw [counts afterThird, turnedKept, third.tally_eq afterSecond, unlockedKept,
        second.tally_eq afterFirst, accountedAdds, first.tally_eq undisturbed, claimedKept]
    have undisturbedLater : Undisturbed (.worker number) later := by
      intro moment member
      apply afterThird
      rw [handled.split]
      exact List.mem_append_right _ (List.mem_cons_of_mem _ member)
    have sameAgent : turned.after.agent = claimed.before.agent := by
      rw [← third.onward.agent, reached.agent, agent]
    have discloses := handled.discloses third.onward undisturbedLater
    rwa [tally, sameAgent] at discloses

/-- Whoever handles an error counts it once and tells of it.  There is one attempt at a report if
the error is fatal and has a path, and none otherwise.  If nobody else counts meanwhile, the
report tells of the counters with this error, and for a worker that leaves its own run also with
the time of that run.  An actor that makes all its steps at once gets to one and the same agent,
whether or not there is a path and whether or not the report can be written. -/
theorem errors_leave_complete_reports :
    (∀ (start finish : Engine) (history : History) (actor : Actor) (fault : Fault),
      start.Reaches history finish → start.reporting? actor = some (.counting fault) →
      finish.reporting? actor = some .done → Inside actor history →
      ∃ earlier counted later judged report,
        Handled actor fault history earlier counted later judged report ∧
          attempts (stepsOf actor history) = (judged.before.reportTarget fault).toList ∧
          (Undisturbed actor later →
            Discloses start.agent counted.before.tally.countError report)) ∧
      (∀ (claimed : Moment) (finish : Engine) (history : History) (number : Nat) (run : Run)
          (fault : Fault) (circumstances : Circumstances),
        claimed.move = .step (.worker number) circumstances →
        claimed.before.move? claimed.move = some (claimed.after, claimed.events) →
        claimed.before.position? number = some (.retiring (.claiming run.generation) fault) →
        claimed.before.slot.active = some run → claimed.after.Reaches history finish →
        finish.reporting? (.worker number) = some .done → Inside (.worker number) history →
        Exits number run fault claimed history) ∧
      ∀ (engine : Engine) (actor : Actor) (fault : Fault) (path : Option String)
          (circumstances : Engine → Circumstances),
        engine.reporting? actor = some (.counting fault) →
        Leads actor circumstances 9 { engine with reportPath := path }
          (({ engine with reportPath := path }).reportingEvents actor circumstances fault)
          (({ engine with
            reportPath := path
            tally := engine.tally.countError }).setReporting actor .done) := by
  refine ⟨?_, ?_, ?_⟩
  · intro start finish history actor fault reached standing ended inside
    obtain ⟨earlier, counted, later, judged, report, handled, _⟩ :=
      reached.handles standing ended inside
    refine ⟨earlier, counted, later, judged, report, handled, handled.attempts_eq, ?_⟩
    intro undisturbed
    have discloses := handled.discloses reached undisturbed
    rwa [handled.counts, setReporting_tally] at discloses
  · intro claimed finish history number run fault circumstances claiming made standing active
      reached ended inside
    exact reached.exits claiming made standing active ended inside
  · intro engine actor fault path circumstances standing
    apply leads_reporting
    cases actor <;> exact standing

/-- An agent without a hashrate whose worker has a run in the slot and is about to enter its
loop. -/
def hapless : Engine :=
  { initial ⟨⟨0, 5⟩, ⟨0⟩, fun _ => 0⟩ with
    reportPath := some "errors.json"
    slot := ⟨1, some ⟨1, 0, ⟨0, 5⟩⟩⟩
    workers := [⟨1, .ofWallet "", .fresh, .entering⟩] }

/-- The worker makes a step at seven nanoseconds. -/
def stepAtSeven : Move := .step (.worker 0) { calm with now := ⟨7, 7⟩ }

def haplessClaim : Moment := (hapless.record (List.replicate 4 stepAtSeven)).2.momentOf stepAtSeven

/-- The rest of the exit, while a caller exports the counters. -/
def haplessExit : History × Engine :=
  haplessClaim.after.record
    (stepAtSeven :: .call 1 .export :: List.replicate 3 stepAtSeven ++
      .step (.caller 1) calm :: List.replicate 8 stepAtSeven)

theorem hapless_exit_reported :
    attempts (stepsOf (.worker 0) haplessExit.1) = ["errors.json"] ∧
      haplessExit.2.tally = ⟨0, 0, 0, 1, 2, 0⟩ ∧
      Exits 0 ⟨1, 0, ⟨0, 5⟩⟩ (.invalidRate 0 1) haplessClaim haplessExit.1 := by
  refine ⟨by decide, by decide, ?_⟩
  apply errors_leave_complete_reports.2.1 haplessClaim haplessExit.2 haplessExit.1 0
    ⟨1, 0, ⟨0, 5⟩⟩ (.invalidRate 0 1) { calm with now := ⟨7, 7⟩ }
  · rfl
  · rfl
  · rfl
  · rfl
  · exact reaches_record _
  · rfl
  · unfold Inside
    decide

end Engine

end MiningAgent
