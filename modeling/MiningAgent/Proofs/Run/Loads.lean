import MiningAgent.Proofs.Run.Aftermath
import MiningAgent.Proofs.Run.Records
import MiningAgent.Proofs.Run.Requests

/-!
# Loading the counters

An export loads the counters one by one.  A caller makes one when it asks for it, and whoever
handles a fatal error makes one for its report.  `Engine.loaded?` is how far an actor is with its
export, and `move?_loading` how it got there: it has begun, or has loaded the next counter, or
somebody else made a move.  Afterwards the export is returned or written as it was loaded.
-/

namespace MiningAgent

/-- The counters loaded so far for a report. -/
def Reporting.loaded? : Reporting → Option (List UInt64)
  | .loading _ loaded => some loaded
  | _ => none

theorem Reporting.record_of_loaded? {reporting : Reporting} {loaded : List UInt64}
    (standing : reporting.loaded? = some loaded) (tally : Tally) :
    reporting.record tally = tally := by
  cases reporting with
  | loading path own => rfl
  | _ => cases standing

/-- The counters loaded so far for an export that a caller is in. -/
def Activity.loaded? : Activity → Option (List UInt64)
  | .exporting loaded => some loaded
  | activity => activity.reporting?.bind Reporting.loaded?

theorem Activity.eq_exporting {activity : Activity} {loaded : List UInt64}
    (standing : activity.loaded? = some loaded) (faultless : activity.reporting? = none) :
    activity = .exporting loaded := by
  cases activity with
  | exporting own =>
      cases standing
      rfl
  | startRefusing fault stage | reporting stage => cases faultless
  | _ => cases standing

/-- How a worker comes to where it stands in its handling of an error by a step of its own. -/
theorem Worker.Advance.reporting?_cases {engine : Engine} {circumstances : Circumstances}
    {worker later : Worker} {stage : Reporting}
    (advance : worker.Advance engine circumstances later)
    (standing : later.position.reporting? = some stage) :
    (∃ fault, stage = .counting fault) ∨
      ∃ earlier, worker.position.reporting? = some earlier ∧ earlier ≠ .done ∧
        stage = (engine.stepReporting circumstances earlier).1 := by
  cases advance with
  | broadcasting_rejected stood rejected | retiring_done stood =>
      cases standing
      exact .inl ⟨_, rfl⟩
  | failing stood unfinished | dying stood unfinished =>
      cases standing
      exact .inr ⟨_, by rw [stood]; rfl, unfinished, rfl⟩
  | _ => cases standing

namespace Engine

/-- The counters that an actor has loaded so far, if it is in an export. -/
def loaded? (engine : Engine) : Actor → Option (List UInt64)
  | .caller number => (engine.callers number).loaded?
  | .worker number => (engine.reporting? (.worker number)).bind Reporting.loaded?

/-- An actor begins an export: a caller asks for one, or whoever handles an error is about to
load the counters for its report. -/
inductive Moment.Begins (moment : Moment) : Actor → Prop
  | asked {caller : Nat} (call : moment.move = .call caller .export) :
      Begins moment (.caller caller)
  | reporting {actor : Actor} {fault : Fault} {path : String}
      (before : moment.before.reporting? actor = some (.judging fault))
      (after : moment.after.reporting? actor = some (.loading path [])) :
      Begins moment actor

/-- An actor completes an export with a snapshot: the call returns it, or the report is going to
be written with it. -/
inductive Moment.Exports (moment : Moment) : Actor → Tally → Prop
  | returned {caller : Nat} {tally : Tally} (returns : moment.Returns caller (.exported tally)) :
      Exports moment (.caller caller) tally
  | reported {actor : Actor} {path : String} {loaded : List UInt64} {tally : Tally}
      (before : moment.before.reporting? actor = some (.loading path loaded))
      (after : moment.after.reporting? actor = some (.writing path tally)) :
      Exports moment actor tally

variable {engine next : Engine} {move : Move} {actor : Actor} {number : Nat}
  {circumstances : Circumstances} {events : List Event} {loaded : List UInt64} {tally : Tally}
  {stage : Reporting}

theorem loaded?_of_reporting? (standing : engine.reporting? actor = some stage) :
    engine.loaded? actor = stage.loaded? := by
  cases actor with
  | caller number =>
      simp only [reporting?] at standing
      simp only [loaded?]
      cases activity : engine.callers number with
      | startRefusing fault own | reporting own =>
          rw [activity] at standing
          cases standing
          rfl
      | _ =>
          rw [activity] at standing
          cases standing
  | worker number => rw [loaded?, standing, Option.bind_some]

/-- How an actor has come to where it stands in its handling of an error. -/
inductive Staged (moment : Moment) (actor : Actor) (stage : Reporting) : Prop
  | entered (fault : Fault) (first : stage = .counting fault)
  | kept (before : moment.before.reporting? actor = some stage)
  | passed {earlier : Reporting} {circumstances : Circumstances}
      (before : moment.before.reporting? actor = some earlier) (unfinished : earlier ≠ .done)
      (own : moment.move = .step actor circumstances)
      (same : stage = (moment.before.stepReporting circumstances earlier).1)

theorem stepCaller_staged (taken : engine.stepCaller number circumstances = some (next, events))
    (standing : next.reporting? (.caller number) = some stage) :
    Staged ⟨engine, .step (.caller number) circumstances, events, next⟩ (.caller number) stage := by
  rw [reporting?] at standing
  cases stepCaller_cases taken with
  | startRefusing stood unfinished | reporting stood unfinished =>
      rw [setCaller_self] at standing
      cases standing
      exact .passed (by rw [reporting?, stood]; rfl) unfinished rfl rfl
  | startChecking_unrated stood unrated cause =>
      rw [setCaller_self] at standing
      cases standing
      exact .entered _ rfl
  | _ =>
      rw [setCaller_self] at standing
      cases standing

theorem move?_staged (made : engine.move? move = some (next, events))
    (standing : next.reporting? actor = some stage) :
    Staged ⟨engine, move, events, next⟩ actor stage := by
  cases actor with
  | caller number =>
      by_cases about : move.caller? = some number
      · cases move?_cases made with
        | @call caller call idle =>
            cases about
            rw [reporting?, setCaller_self] at standing
            cases call <;> cases standing
        | failSpawn stood vacant =>
            cases about
            rw [reporting?, setCaller_self] at standing
            cases standing
        | setReportPath => cases about
        | caller taken =>
            cases about
            exact stepCaller_staged taken standing
        | worker taken => cases about
      · rw [reporting?, move?_callers made about] at standing
        exact .kept standing
  | worker number =>
      obtain ⟨later, there, stands⟩ := Option.bind_eq_some_iff.mp standing
      cases found : engine.workers[number]? with
      | none =>
          obtain ⟨_, _, _, _, _, _, rfl⟩ := move?_newcomer made found there
          cases stands
      | some worker =>
          obtain ⟨after, present, ⟨circumstances, own, advance⟩ | ⟨_, touched⟩⟩ :=
            move?_worker made found
          · cases Option.some.inj (present.symm.trans there)
            rcases advance.reporting?_cases stands with
              ⟨fault, first⟩ | ⟨earlier, stood, unfinished, same⟩
            · exact .entered fault first
            · exact .passed (by rw [reporting?, found]; exact stood) unfinished own same
          · cases Option.some.inj (present.symm.trans there)
            rw [touched.position] at stands
            exact .kept (by rw [reporting?, found]; exact stands)

/-- How an actor has come to what it has loaded so far. -/
inductive Loading (moment : Moment) (actor : Actor) (loaded : List UInt64) : Prop
  | begun (begins : moment.Begins actor) (none : loaded = [])
  | kept (before : moment.before.loaded? actor = some loaded)
  | longer {earlier : List UInt64} (before : moment.before.loaded? actor = some earlier)
      (more : loaded = moment.before.tally.loadNext earlier)
      (incomplete : Tally.ofCounters? loaded = none)
      (tally : moment.after.tally = moment.before.tally)

/-- A step of handling an error that leaves counters loaded begins or goes on with them. -/
theorem stepReporting_loaded? {earlier : Reporting}
    (standing : (engine.stepReporting circumstances earlier).1.loaded? = some loaded) :
    (∃ fault path, earlier = .judging fault ∧ loaded = [] ∧
        (engine.stepReporting circumstances earlier).1 = .loading path []) ∨
      ∃ sooner, earlier.loaded? = some sooner ∧ loaded = engine.tally.loadNext sooner ∧
        Tally.ofCounters? loaded = none := by
  cases earlier with
  | judging fault =>
      rw [stepReporting_judging] at standing ⊢
      cases target : engine.reportTarget fault with
      | none =>
          rw [target] at standing
          cases standing
      | some path =>
          rw [target] at standing
          cases standing
          exact .inl ⟨fault, path, rfl, rfl, rfl⟩
  | loading path sooner =>
      simp only [stepReporting] at standing
      split at standing
      · cases standing
      · rename_i incomplete
        cases standing
        exact .inr ⟨sooner, rfl, rfl, incomplete⟩
  | writing path tally =>
      rw [stepReporting_writing] at standing
      cases standing
  | _ => cases standing

theorem stepCaller_loading
    (taken : engine.stepCaller number circumstances = some (next, events))
    (standing : next.callers number = .exporting loaded) :
    Loading ⟨engine, .step (.caller number) circumstances, events, next⟩ (.caller number)
      loaded := by
  cases stepCaller_cases taken with
  | exporting stood unfinished =>
      rw [setCaller_self] at standing
      cases standing
      exact .longer (by rw [loaded?, stood]; rfl) rfl unfinished rfl
  | _ =>
      rw [setCaller_self] at standing
      cases standing

theorem move?_loading (made : engine.move? move = some (next, events))
    (standing : next.loaded? actor = some loaded) :
    Loading ⟨engine, move, events, next⟩ actor loaded := by
  cases reports : next.reporting? actor with
  | some stage =>
      rw [loaded?_of_reporting? reports] at standing
      cases move?_staged made reports with
      | entered fault first =>
          subst first
          cases standing
      | kept before => exact .kept ((loaded?_of_reporting? before).trans standing)
      | @passed earlier circumstances before unfinished own same =>
          subst same
          rcases stepReporting_loaded? standing with
            ⟨fault, path, rfl, rfl, begins⟩ | ⟨sooner, stood, more, incomplete⟩
          · exact .begun (.reporting before (reports.trans (congrArg some begins))) rfl
          · refine .longer ((loaded?_of_reporting? before).trans stood) more incomplete ?_
            subst own
            have taken := step_reporting before unfinished circumstances
            obtain ⟨after, _⟩ := Prod.mk.inj (Option.some.inj (taken.symm.trans made))
            rw [← after, setReporting_tally, stepReporting_tally, Reporting.record_of_loaded? stood]
  | none =>
      cases actor with
      | worker number =>
          rw [loaded?, reports] at standing
          cases standing
      | caller number =>
          by_cases about : move.caller? = some number
          · have exports := Activity.eq_exporting standing reports
            cases move?_cases made with
            | @call caller call idle =>
                cases about
                rw [setCaller_self] at exports
                cases call with
                | «export» =>
                    cases exports
                    exact .begun (.asked rfl) rfl
                | _ => cases exports
            | failSpawn stood vacant =>
                cases about
                rw [setCaller_self] at exports
                cases exports
            | setReportPath => cases about
            | caller taken =>
                cases about
                exact stepCaller_loading taken exports
            | worker taken => cases about
          · rw [loaded?, move?_callers made about] at standing
            exact .kept standing

/-- Handling an error shows log entries, and the report if it is written. -/
theorem stepReporting_shows {event : Event}
    (member : event ∈ (engine.stepReporting circumstances stage).2.2) :
    (∃ entry, event = .logged entry) ∨
      ∃ path tally, stage = .writing path tally ∧ event = .wrote path (engine.report tally) := by
  cases stage with
  | judging fault => exact .inl ⟨_, List.mem_singleton.mp member⟩
  | loading path loaded =>
      simp only [stepReporting] at member
      split at member <;> cases member
  | writing path tally =>
      rw [stepReporting_writing, writing.eq_def] at member
      split at member
      · rcases List.mem_cons.mp member with wrote | told
        · exact .inr ⟨path, tally, rfl, wrote⟩
        · exact .inl ⟨_, List.mem_singleton.mp told⟩
      · exact .inl ⟨_, List.mem_singleton.mp member⟩
  | _ => cases member

theorem stepReporting_writes {path : String}
    (writes : (engine.stepReporting circumstances stage).1 = .writing path tally) :
    ∃ loaded, stage = .loading path loaded := by
  cases stage with
  | judging fault =>
      rw [stepReporting_judging] at writes
      cases target : engine.reportTarget fault <;> rw [target] at writes <;> cases writes
  | loading own loaded =>
      simp only [stepReporting] at writes
      split at writes <;> cases writes
      exact ⟨loaded, rfl⟩
  | writing own loaded =>
      rw [stepReporting_writing] at writes
      cases writes
  | _ => cases writes

/-- What a step of a caller may show: a log entry, the report it was going to write, the snapshot
it has completed, or another answer. -/
inductive Shows (engine next : Engine) (number : Nat) : Event → Prop
  | logged (entry : LogEntry) : Shows engine next number (.logged entry)
  | wrote {path : String} {tally : Tally}
      (standing : engine.reporting? (.caller number) = some (.writing path tally)) :
      Shows engine next number (.wrote path (engine.report tally))
  | exported {loaded : List UInt64} {tally : Tally}
      (standing : engine.callers number = .exporting loaded)
      (complete : Tally.ofCounters? (engine.tally.loadNext loaded) = some tally)
      (idle : next.callers number = .idle) :
      Shows engine next number (.returned (.exported tally))
  | answered {result : Result} (other : ∀ tally, result ≠ .exported tally) :
      Shows engine next number (.returned result)

theorem stepCaller_shows {event : Event} (sound : engine.Sound)
    (taken : engine.stepCaller number circumstances = some (next, events))
    (shown : event ∈ events) : engine.Shows next number event := by
  cases stepCaller_cases taken with
  | exporting_done standing finished =>
      cases List.mem_singleton.mp shown
      exact .exported standing finished (setCaller_self _ _ _)
  | startRefusing standing unfinished | reporting standing unfinished =>
      rcases stepReporting_shows shown with ⟨entry, rfl⟩ | ⟨path, tally, rfl, rfl⟩
      · exact .logged entry
      · exact .wrote (by rw [reporting?, standing]; rfl)
  | updating_accepted standing accepted entries =>
      obtain ⟨entry, rfl⟩ := entries _ shown
      exact .logged entry
  | updating_refused standing refused entries =>
      rcases List.mem_append.mp shown with early | last
      · obtain ⟨entry, rfl⟩ := entries _ early
        exact .logged entry
      · cases List.mem_singleton.mp last
        exact .answered (by simp)
  | leaving standing =>
      cases List.mem_singleton.mp shown
      refine .answered ?_
      rintro tally rfl
      have proper := sound.proper number
      rw [standing] at proper
      cases proper
  | @interruptReleasing notified delivered standing =>
      cases List.mem_singleton.mp shown
      refine .answered ?_
      intro tally same
      cases notified <;> cases same
  | closeReleasing_idle standing | retiring_done standing | reporting_done standing =>
      cases List.mem_singleton.mp shown
      exact .answered (by simp)
  | startDeciding_active standing active | startFilling standing | stopReleasing_none standing
  | stopAccounting standing | interruptSending standing active present | peerCounting standing =>
      cases List.mem_singleton.mp shown
      exact .logged _
  | _ => cases shown

theorem stepWorker_wrote {path : String} {report : Report}
    (taken : engine.stepWorker number circumstances = some (next, events))
    (shown : .wrote path report ∈ events) :
    ∃ tally, engine.reporting? (.worker number) = some (.writing path tally) ∧
      report = engine.report tally := by
  obtain ⟨worker, found⟩ := exists_of_stepWorker taken
  have reports : engine.reporting? (.worker number) = worker.position.reporting? := by
    rw [reporting?, found, Option.bind_some]
  by_cases handling : ∃ stage, worker.position.reporting? = some stage ∧ stage ≠ .done
  · obtain ⟨stage, standing, unfinished⟩ := handling
    have made := step_reporting (reports.trans standing) unfinished circumstances
    rw [step, taken] at made
    cases made
    rcases stepReporting_shows shown with ⟨entry, logged⟩ | ⟨path, tally, rfl, wrote⟩
    · cases logged
    · cases wrote
      exact ⟨tally, reports.trans standing, rfl⟩
  · exfalso
    simp only [stepWorker, found] at taken
    cases standing : worker.position with
    | drawing seen =>
        simp only [standing, drawDelay] at taken
        split at taken <;> cases taken <;> simp at shown
    | minting task =>
        simp only [standing, mintBlock] at taken
        cases taken
        simp at shown
    | waiting task confirmed wait =>
        cases wait with
        | listening | timedOut | draining last =>
            simp only [standing] at taken
            split at taken <;> cases taken
            simp at shown
        | _ =>
            simp only [standing] at taken
            cases taken
            simp at shown
    | confirming task =>
        simp only [standing] at taken
        split at taken <;> cases taken <;> simp at shown
    | broadcasting block =>
        simp only [standing] at taken
        split at taken <;> cases taken <;> simp at shown
    | failing stage | dying stage =>
        rw [standing] at handling
        by_cases finished : stage = .done
        · subst finished
          simp only [standing] at taken
          cases taken
          simp at shown
        · exact handling ⟨stage, rfl, finished⟩
    | retiring retirement fault =>
        cases retirement with
        | done =>
            simp only [standing] at taken
            cases taken
            simp at shown
        | _ =>
            simp only [standing] at taken
            split at taken <;> cases taken
            simp at shown
    | exited =>
        simp only [standing] at taken
        cases taken
    | _ =>
        simp only [standing] at taken
        cases taken
        simp at shown

theorem move?_wrote {path : String} {report : Report}
    (sound : engine.Sound) (made : engine.move? move = some (next, events))
    (shown : .wrote path report ∈ events) :
    ∃ actor tally, engine.reporting? actor = some (.writing path tally) ∧
      report = engine.report tally := by
  cases move?_cases made with
  | call idle | setReportPath => cases shown
  | failSpawn standing vacant => cases List.mem_singleton.mp shown
  | caller taken =>
      cases stepCaller_shows sound taken shown with
      | wrote standing => exact ⟨_, _, standing, rfl⟩
  | worker taken => exact ⟨_, stepWorker_wrote taken shown⟩

end Engine

end MiningAgent
