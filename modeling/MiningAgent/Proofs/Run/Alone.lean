import MiningAgent.Proofs.Run.Frame

/-!
# Actors on their own

What an actor does while nobody else makes a step, and how it handles a mining error.

* `Engine.Leads`: the steps of one actor from one engine to another.
* `Engine.reporting?`: where an actor stands in its handling of an error, be it a caller or a
  worker.  `Engine.setReporting` moves it there.
-/

namespace MiningAgent

namespace Activity

def reporting? : Activity → Option Reporting
  | .startRefusing _ stage => some stage
  | .reporting stage => some stage
  | _ => none

def setReporting (later : Reporting) : Activity → Activity
  | .startRefusing fault _ => .startRefusing fault later
  | .reporting _ => .reporting later
  | activity => activity

end Activity

namespace Position

def reporting? : Position → Option Reporting
  | .failing stage => some stage
  | .dying stage => some stage
  | _ => none

def setReporting (later : Reporting) : Position → Position
  | .failing _ => .failing later
  | .dying _ => .dying later
  | position => position

end Position

namespace Engine

/-- How far an actor is with the error that it handles, if it handles one. -/
def reporting? (engine : Engine) : Actor → Option Reporting
  | .caller number => (engine.callers number).reporting?
  | .worker number => (engine.workers[number]?).bind fun worker => worker.position.reporting?

/-- The engine with one actor further on in its handling of an error. -/
def setReporting (engine : Engine) (actor : Actor) (later : Reporting) : Engine :=
  match actor with
  | .caller number => engine.setCaller number ((engine.callers number).setReporting later)
  | .worker number =>
      engine.changeWorker number fun worker =>
        { worker with position := worker.position.setReporting later }

/-- Where an error is reported to, if it is. -/
def reportTarget (engine : Engine) (fault : Fault) : Option String :=
  if fault.isFatal then engine.reportPath else none

/-- What an attempt to write a report shows: the report, or why there is none. -/
def writing (engine : Engine) (path : String) (tally : Tally) : Option String → List Event
  | none => [.wrote path (engine.report tally), .logged (.reportWritten path)]
  | some reason => [.logged (.errorReportFailed path (.io reason))]

variable {actor : Actor} {circumstances : Engine → Circumstances}
  {engine next last : Engine} {number bound : Nat} {events later : List Event}

/-- At most `bound` steps of one actor lead from one engine to another. -/
inductive Leads (actor : Actor) (circumstances : Engine → Circumstances) :
    Nat → Engine → List Event → Engine → Prop
  | here {bound : Nat} {engine : Engine} : Leads actor circumstances bound engine [] engine
  | step {bound : Nat} {engine next last : Engine} {events later : List Event}
      (taken : engine.step actor (circumstances engine) = some (next, events))
      (leads : Leads actor circumstances bound next later last) :
      Leads actor circumstances (bound + 1) engine (events ++ later) last

theorem Leads.one (taken : engine.step actor (circumstances engine) = some (next, events)) :
    Leads actor circumstances 1 engine events next := by
  simpa using Leads.step taken .here

theorem Leads.mono {more : Nat} (leads : Leads actor circumstances bound engine events last)
    (enough : bound ≤ more) : Leads actor circumstances more engine events last := by
  induction leads generalizing more with
  | here => exact .here
  | step taken _ inductionHypothesis =>
      obtain ⟨rest, rfl⟩ : ∃ rest, more = rest + 1 := ⟨more - 1, by omega⟩
      exact .step taken (inductionHypothesis (by omega))

theorem Leads.trans {more : Nat} (leads : Leads actor circumstances bound engine events next)
    (onward : Leads actor circumstances more next later last) :
    Leads actor circumstances (bound + more) engine (events ++ later) last := by
  induction leads with
  | here => exact onward.mono (Nat.le_add_left _ _)
  | step taken _ inductionHypothesis =>
      rw [List.append_assoc, Nat.add_right_comm]
      exact .step taken (inductionHypothesis onward)

/-- Whoever follows an actor for long enough gets to where it is blocked. -/
theorem Leads.follow {enough : Nat} (leads : Leads actor circumstances bound engine events last)
    (blocked : last.step actor (circumstances last) = none) (le : bound ≤ enough) :
    follow actor circumstances enough engine = (last, events) := by
  induction leads generalizing enough with
  | here => exact follow_blocked blocked enough
  | step taken _ inductionHypothesis =>
      obtain ⟨rest, rfl⟩ : ∃ rest, enough = rest + 1 := ⟨enough - 1, by omega⟩
      have onward := inductionHypothesis blocked (Nat.le_of_succ_le_succ le)
      rw [follow_step taken, onward]

theorem reporting?_tally (engine : Engine) (actor : Actor) (tally : Tally) :
    ({ engine with tally := tally }).reporting? actor = engine.reporting? actor := by
  cases actor <;> rfl

theorem reporting?_setReporting {stage : Reporting}
    (standing : engine.reporting? actor = some stage) (after : Reporting) :
    (engine.setReporting actor after).reporting? actor = some after := by
  cases actor with
  | caller number =>
      simp only [reporting?, setReporting, setCaller_self] at standing ⊢
      cases activity : engine.callers number <;> simp_all [Activity.reporting?,
        Activity.setReporting]
  | worker number =>
      simp only [reporting?, setReporting, changeWorker_getElem?, if_true] at standing ⊢
      cases found : engine.workers[number]? with
      | none => simp [found] at standing
      | some worker =>
          simp only [found, Option.bind_some, Option.map_some] at standing ⊢
          cases position : worker.position <;> simp_all [Position.reporting?,
            Position.setReporting]

theorem setReporting_setReporting (engine : Engine) (actor : Actor) (stage after : Reporting) :
    (engine.setReporting actor stage).setReporting actor after =
      engine.setReporting actor after := by
  cases actor with
  | caller number =>
      simp only [setReporting, setCaller_self, setCaller_setCaller]
      cases engine.callers number <;> rfl
  | worker number =>
      simp only [setReporting, changeWorker_changeWorker]
      congr 1
      funext worker
      simp only [Function.comp]
      cases worker.position <;> rfl

/-- A step of handling an error moves its actor on, and does nothing else to the callers and the
workers. -/
theorem step_reporting {stage : Reporting} (standing : engine.reporting? actor = some stage)
    (unfinished : stage ≠ .done) (circumstances : Circumstances) :
    engine.step actor circumstances =
      some ((engine.stepReporting circumstances stage).2.1.setReporting actor
          (engine.stepReporting circumstances stage).1,
        (engine.stepReporting circumstances stage).2.2) := by
  cases actor with
  | caller number =>
      simp only [reporting?] at standing
      simp only [step, setReporting, stepReporting_callers]
      cases activity : engine.callers number with
      | startRefusing fault own | reporting own =>
          rw [activity] at standing
          cases standing
          cases stage with
          | done => exact absurd rfl unfinished
          | _ => simp only [stepCaller, activity, Activity.setReporting]
      | _ =>
          rw [activity] at standing
          cases standing
  | worker number =>
      simp only [reporting?] at standing
      cases found : engine.workers[number]? with
      | none => simp [found] at standing
      | some worker =>
          simp only [found, Option.bind_some] at standing
          have moves :
              (engine.stepReporting circumstances stage).2.1.moveWorker number
                  (worker.position.setReporting (engine.stepReporting circumstances stage).1) =
                (engine.stepReporting circumstances stage).2.1.setReporting (.worker number)
                  (engine.stepReporting circumstances stage).1 := by
            rw [moveWorker_eq, setReporting]
            apply changeWorker_congr
            intro other present
            rw [stepReporting_workers, found] at present
            cases present
            rfl
          rw [← moves]
          cases position : worker.position with
          | failing own | dying own =>
              rw [position] at standing
              cases standing
              cases stage with
              | done => exact absurd rfl unfinished
              | _ => simp only [step, stepWorker, found, position, Position.setReporting]
          | _ =>
              rw [position] at standing
              cases standing

/-- A step of giving up a run, as far as the slot allows it. -/
theorem step_retiring {worker : Worker} {retirement : Retirement} {fault : Fault}
    (found : engine.workers[number]? = some worker)
    (standing : worker.position = .retiring retirement fault) (unfinished : retirement ≠ .done)
    (circumstances : Circumstances) :
    engine.step (.worker number) circumstances =
      (engine.stepRetirement (.worker number) circumstances retirement).map
        fun (later, changed) => (changed.moveWorker number (.retiring later fault), []) := by
  cases retirement with
  | done => exact absurd rfl unfinished
  | _ =>
      simp only [step, stepWorker, found, standing]
      split
      · rename_i given
        rw [given]
        rfl
      · rename_i refused
        rw [refused]
        rfl

@[simp]
theorem setReporting_tally (engine : Engine) (actor : Actor) (stage : Reporting) :
    (engine.setReporting actor stage).tally = engine.tally := by
  cases actor <;> rfl

@[simp]
theorem setReporting_reportPath (engine : Engine) (actor : Actor) (stage : Reporting) :
    (engine.setReporting actor stage).reportPath = engine.reportPath := by
  cases actor <;> rfl

theorem setReporting_writing (engine : Engine) (actor : Actor) (stage : Reporting) (path : String)
    (tally : Tally) (failure : Option String) :
    (engine.setReporting actor stage).writing path tally failure =
      engine.writing path tally failure := by
  cases actor <;> rfl

theorem stepReporting_judging (engine : Engine) (circumstances : Circumstances) (fault : Fault) :
    engine.stepReporting circumstances (.judging fault) =
      ((engine.reportTarget fault).elim .done fun path => .loading path [], engine,
        [.logged (.miningError fault)]) := by
  simp only [stepReporting, reportTarget]
  cases fault.isFatal <;> cases engine.reportPath <;> rfl

theorem stepReporting_writing (engine : Engine) (circumstances : Circumstances) (path : String)
    (tally : Tally) :
    engine.stepReporting circumstances (.writing path tally) =
      (.done, engine, engine.writing path tally circumstances.writeFailure) := by
  simp only [stepReporting]
  cases circumstances.writeFailure <;> rfl

end Engine

theorem Tally.loadNext_take (tally : Tally) (count : Nat) (missing : count < 6) :
    tally.loadNext (tally.counters.take count) = tally.counters.take (count + 1) := by
  have loaded : (tally.counters.take count).length = count := by
    rw [List.length_take]
    exact Nat.min_eq_left (Nat.le_of_lt missing)
  rw [loadNext, loaded, ← List.take_add]

theorem Tally.length_loadNext (tally : Tally) {loaded : List UInt64}
    (missing : loaded.length < 6) : (tally.loadNext loaded).length = loaded.length + 1 := by
  simp only [loadNext, List.length_append, List.length_take, List.length_drop, counters]
  simp only [List.length_cons, List.length_nil]
  omega

theorem Tally.length_of_ofCounters? {loaded : List UInt64}
    (incomplete : Tally.ofCounters? loaded = none) : loaded.length ≠ 6 := by
  intro complete
  match loaded, complete with
  | [_, _, _, _, _, _], _ => cases incomplete

theorem Tally.ofCounters?_eq_none {loaded : List UInt64} (missing : loaded.length < 6) :
    Tally.ofCounters? loaded = none := by
  unfold ofCounters?
  split
  · exact absurd missing (Nat.lt_irrefl _)
  · rfl

namespace Engine

variable {actor : Actor} {circumstances : Engine → Circumstances} {engine : Engine}
  {path : String} {fault : Fault}

/-- The counters are loaded one by one, and nobody changes them meanwhile. -/
theorem leads_loading (circumstances : Engine → Circumstances) (count left : Nat)
    (together : count + left = 5)
    (standing : engine.reporting? actor =
      some (.loading path (engine.tally.counters.take count))) :
    Leads actor circumstances (left + 1) engine []
      (engine.setReporting actor (.writing path engine.tally)) := by
  have taken := step_reporting standing (by simp) (circumstances engine)
  have loaded := engine.tally.loadNext_take count (by omega)
  induction left generalizing count engine with
  | zero =>
      obtain rfl : count = 5 := by omega
      have complete : Tally.ofCounters? (engine.tally.loadNext (engine.tally.counters.take 5)) =
          some engine.tally := by rw [loaded]; rfl
      simp only [stepReporting, complete] at taken
      exact .one taken
  | succ left inductionHypothesis =>
      have incomplete : Tally.ofCounters? (engine.tally.loadNext
          (engine.tally.counters.take count)) = none := by
        rw [loaded]
        apply Tally.ofCounters?_eq_none
        rw [List.length_take]
        omega
      simp only [stepReporting, incomplete] at taken
      rw [loaded] at taken
      let further := engine.setReporting actor
        (.loading path (engine.tally.counters.take (count + 1)))
      have standingOn : further.reporting? actor =
          some (.loading path (further.tally.counters.take (count + 1))) := by
        simpa [further] using reporting?_setReporting standing _
      have onward := inductionHypothesis (count + 1) (by omega) standingOn
        (step_reporting standingOn (by simp) _) (further.tally.loadNext_take _ (by omega))
      rw [setReporting_setReporting, setReporting_tally] at onward
      exact .step taken onward

/-- What the handling of an error shows if nobody else makes a step meanwhile. -/
def reportingEvents (engine : Engine) (actor : Actor) (circumstances : Engine → Circumstances)
    (fault : Fault) : List Event :=
  let counted := { engine with tally := engine.tally.countError }
  .logged (.miningError fault) ::
    (engine.reportTarget fault).elim [] fun path =>
      let writer := counted.setReporting actor (.writing path counted.tally)
      counted.writing path counted.tally (circumstances writer).writeFailure

/-- An error is counted, and handling it changes nothing else, whether or not a report is
written. -/
theorem leads_reporting (standing : engine.reporting? actor = some (.counting fault)) :
    Leads actor circumstances 9 engine (engine.reportingEvents actor circumstances fault)
      (({ engine with tally := engine.tally.countError }).setReporting actor .done) := by
  let counted := { engine with tally := engine.tally.countError }
  have handled : counted.reporting? actor = some (.counting fault) :=
    (reporting?_tally engine actor _).trans standing
  have count := step_reporting standing (by simp) (circumstances engine)
  have judged := reporting?_setReporting handled (.judging fault)
  have judge := step_reporting judged (by simp)
    (circumstances (counted.setReporting actor (.judging fault)))
  have target : (counted.setReporting actor (.judging fault)).reportTarget fault =
      engine.reportTarget fault := by
    simp [reportTarget, counted]
  rw [stepReporting_judging, target, setReporting_setReporting] at judge
  unfold reportingEvents
  cases reported : engine.reportTarget fault with
  | none =>
      rw [reported] at judge
      have leads : Leads actor circumstances 1 _ _ _ := .one judge
      exact (Leads.step count leads).mono (by omega)
  | some path =>
      rw [reported] at judge
      have loading := reporting?_setReporting handled (.loading path [])
      have load := leads_loading circumstances 0 5 rfl (by simpa using loading)
      have writes := reporting?_setReporting handled (.writing path counted.tally)
      have write := step_reporting writes (by simp)
        (circumstances (counted.setReporting actor (.writing path counted.tally)))
      rw [stepReporting_writing, setReporting_setReporting, setReporting_writing] at write
      rw [setReporting_setReporting, setReporting_tally] at load
      have leads := Leads.step count (.step judge (load.trans (.one write)))
      exact leads

end Engine

end MiningAgent
