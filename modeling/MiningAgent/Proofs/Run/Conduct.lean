import MiningAgent.Proofs.Run.Frame

/-!
# The conduct of a caller

`Engine.CallerStep` lists what one step of a caller can do, a constructor for each
point of its code.  Later arguments take a step apart by these cases and never look
into the step function again.
-/

namespace MiningAgent.Engine

variable {engine next : Engine} {number : Nat} {circumstances : Circumstances}
  {events : List Event}

/-- The cases of `Engine.stepCaller`. -/
inductive CallerStep (engine : Engine) (number : Nat) (circumstances : Circumstances) :
    Engine → List Event → Prop
  | startLocking {context : Context}
      (standing : engine.callers number = .startLocking context)
      (free : engine.lifecycleHolder = none) :
      CallerStep engine number circumstances
        (({ engine with lifecycleHolder := some number }).setCaller number
          (.startChecking context)) []
  | startChecking {context : Context}
      (standing : engine.callers number = .startChecking context)
      (rated : engine.agent.hashrate.perSecond ≠ 0) :
      CallerStep engine number circumstances
        (engine.setCaller number (.startClaiming context)) []
  | startChecking_unrated {context : Context} {fault : Fault}
      (standing : engine.callers number = .startChecking context)
      (unrated : engine.agent.hashrate.perSecond = 0)
      (cause : fault = .invalidRate 0 engine.tracker.current.difficulty) :
      CallerStep engine number circumstances
        (engine.setCaller number (.startRefusing fault (.counting fault))) []
  | startRefusing {fault : Fault} {reporting : Reporting}
      (standing : engine.callers number = .startRefusing fault reporting)
      (unfinished : reporting ≠ .done) :
      CallerStep engine number circumstances
        ((engine.stepReporting circumstances reporting).2.1.setCaller number
          (.startRefusing fault (engine.stepReporting circumstances reporting).1))
        (engine.stepReporting circumstances reporting).2.2
  | startRefusing_done {fault : Fault}
      (standing : engine.callers number = .startRefusing fault .done) :
      CallerStep engine number circumstances
        (engine.setCaller number (.leaving (.refused fault))) []
  | startClaiming {context : Context}
      (standing : engine.callers number = .startClaiming context)
      (free : engine.slotHolder = none) :
      CallerStep engine number circumstances
        (({ engine with slotHolder := some (.caller number) }).setCaller number
          (.startDeciding context)) []
  | startDeciding {context : Context}
      (standing : engine.callers number = .startDeciding context)
      (vacant : engine.slot.active = none) :
      CallerStep engine number circumstances
        ((engine.spawn context).setCaller number
          (.startFilling (engine.slot.lastGeneration + 1) engine.workers.length)) []
  | startDeciding_active {context : Context} {run : Run}
      (standing : engine.callers number = .startDeciding context)
      (active : engine.slot.active = some run) :
      CallerStep engine number circumstances
        (engine.setCaller number (.startReleasing .alreadyActive))
        [.logged .alreadyActive]
  | startFilling {generation : UInt64} {worker : Nat}
      (standing : engine.callers number = .startFilling generation worker) :
      CallerStep engine number circumstances
        (({ engine with
            slot := ⟨generation, some ⟨generation, worker, circumstances.now⟩⟩ }).setCaller
          number (.startReleasing .started))
        [.logged .started]
  | startReleasing {result : Result}
      (standing : engine.callers number = .startReleasing result) :
      CallerStep engine number circumstances
        (engine.releaseSlot.setCaller number (.leaving result)) []
  | stopLocking
      (standing : engine.callers number = .stopLocking)
      (free : engine.lifecycleHolder = none) :
      CallerStep engine number circumstances
        (({ engine with lifecycleHolder := some number }).setCaller number .stopClaiming) []
  | stopClaiming
      (standing : engine.callers number = .stopClaiming)
      (free : engine.slotHolder = none) :
      CallerStep engine number circumstances
        (({ engine with slotHolder := some (.caller number) }).setCaller number .stopTaking)
        []
  | stopTaking
      (standing : engine.callers number = .stopTaking) :
      CallerStep engine number circumstances
        (({ engine with slot := { engine.slot with active := none } }).setCaller number
          (.stopReleasing engine.slot.active)) []
  | stopReleasing_none
      (standing : engine.callers number = .stopReleasing none) :
      CallerStep engine number circumstances
        (engine.releaseSlot.setCaller number (.leaving .notActive))
        [.logged .notActive]
  | stopReleasing {run : Run}
      (standing : engine.callers number = .stopReleasing (some run)) :
      CallerStep engine number circumstances
        (engine.releaseSlot.setCaller number (.stopSending run)) []
  | stopSending {run : Run}
      (standing : engine.callers number = .stopSending run) :
      CallerStep engine number circumstances
        ((engine.send run.worker .stop).setCaller number (.stopJoining run)) []
  | stopJoining {run : Run}
      (standing : engine.callers number = .stopJoining run)
      (gone : engine.receives run.worker = false) :
      CallerStep engine number circumstances
        (engine.setCaller number (.stopAccounting run)) []
  | stopAccounting {run : Run}
      (standing : engine.callers number = .stopAccounting run) :
      CallerStep engine number circumstances
        (({ engine with
            tally := engine.tally.addMiningTime
              (run.started.elapsed circumstances.now) }).setCaller number
          (.leaving .stopped))
        [.logged .stopped]
  | leaving {result : Result}
      (standing : engine.callers number = .leaving result) :
      CallerStep engine number circumstances
        (({ engine with lifecycleHolder := none }).setCaller number .idle)
        [.returned result]
  | interruptClaiming {reason : Interruption} {notified : Bool}
      (standing : engine.callers number = .interruptClaiming reason notified)
      (free : engine.slotHolder = none) :
      CallerStep engine number circumstances
        (({ engine with slotHolder := some (.caller number) }).setCaller number
          (.interruptSending reason notified)) []
  | interruptSending {reason : Interruption} {notified : Bool} {run : Run}
      (standing : engine.callers number = .interruptSending reason notified)
      (active : engine.slot.active = some run)
      (present : engine.receives run.worker = true) :
      CallerStep engine number circumstances
        ((engine.send run.worker (.interrupt reason)).setCaller number
          (.interruptReleasing notified true))
        [.logged (.interruptSent reason)]
  | interruptSending_failed {reason : Interruption} {notified : Bool}
      (standing : engine.callers number = .interruptSending reason notified)
      (unheard : ∀ run, engine.slot.active = some run → engine.receives run.worker = false) :
      CallerStep engine number circumstances
        (engine.setCaller number (.interruptReleasing notified false)) []
  | interruptReleasing {notified delivered : Bool}
      (standing : engine.callers number = .interruptReleasing notified delivered) :
      CallerStep engine number circumstances
        (engine.releaseSlot.setCaller number .idle)
        [.returned (if notified then .noted true delivered else .interrupted delivered)]
  | peerCounting {announcement : Announcement}
      (standing : engine.callers number = .peerCounting announcement) :
      CallerStep engine number circumstances
        (({ engine with tally := engine.tally.countPeerBlock }).setCaller number
          (.updating .peerBlock announcement))
        [.logged (.peerBlockReceived announcement)]
  | updating_accepted {reason : Interruption} {announcement : Announcement}
      {events : List Event}
      (standing : engine.callers number = .updating reason announcement)
      (accepted : engine.tracker.judge announcement = .accepted)
      (entries : ∀ event ∈ events, ∃ entry, event = .logged entry) :
      CallerStep engine number circumstances
        (({ engine with tracker := ⟨some announcement⟩ }).setCaller number
          (.interruptClaiming reason true)) events
  | updating_refused {reason : Interruption} {announcement : Announcement}
      {events : List Event}
      (standing : engine.callers number = .updating reason announcement)
      (refused : engine.tracker.judge announcement ≠ .accepted)
      (entries : ∀ event ∈ events, ∃ entry, event = .logged entry) :
      CallerStep engine number circumstances
        (engine.setCaller number .idle) (events ++ [.returned (.noted false false)])
  | exporting {loaded : List UInt64}
      (standing : engine.callers number = .exporting loaded)
      (unfinished : Tally.ofCounters? (engine.tally.loadNext loaded) = none) :
      CallerStep engine number circumstances
        (engine.setCaller number (.exporting (engine.tally.loadNext loaded))) []
  | exporting_done {loaded : List UInt64} {tally : Tally}
      (standing : engine.callers number = .exporting loaded)
      (finished : Tally.ofCounters? (engine.tally.loadNext loaded) = some tally) :
      CallerStep engine number circumstances
        (engine.setCaller number .idle) [.returned (.exported tally)]
  | closeClaiming
      (standing : engine.callers number = .closeClaiming)
      (free : engine.slotHolder = none) :
      CallerStep engine number circumstances
        (({ engine with slotHolder := some (.caller number) }).setCaller number .closeLooking)
        []
  | closeLooking
      (standing : engine.callers number = .closeLooking) :
      CallerStep engine number circumstances
        (engine.setCaller number (.closeReleasing engine.isMining)) []
  | closeReleasing
      (standing : engine.callers number = .closeReleasing true) :
      CallerStep engine number circumstances
        (engine.releaseSlot.setCaller number .stopLocking) []
  | closeReleasing_idle
      (standing : engine.callers number = .closeReleasing false) :
      CallerStep engine number circumstances
        (engine.releaseSlot.setCaller number .idle) [.returned .done]
  | retiring {retirement later : Retirement} {changed : Engine}
      (standing : engine.callers number = .retiring retirement)
      (given : engine.stepRetirement (.caller number) circumstances retirement =
        some (later, changed)) :
      CallerStep engine number circumstances
        (changed.setCaller number (.retiring later)) []
  | retiring_done
      (standing : engine.callers number = .retiring .done) :
      CallerStep engine number circumstances
        (engine.setCaller number .idle) [.returned .done]
  | reporting {reporting : Reporting}
      (standing : engine.callers number = .reporting reporting)
      (unfinished : reporting ≠ .done) :
      CallerStep engine number circumstances
        ((engine.stepReporting circumstances reporting).2.1.setCaller number
          (.reporting (engine.stepReporting circumstances reporting).1))
        (engine.stepReporting circumstances reporting).2.2
  | reporting_done
      (standing : engine.callers number = .reporting .done) :
      CallerStep engine number circumstances
        (engine.setCaller number .idle) [.returned .done]

/-- An update shows log entries, and the result of a refused notification. -/
theorem applyUpdate_cases (engine : Engine) (number : Nat) (reason : Interruption)
    (announcement : Announcement) :
    ∃ entries : List Event,
      (∀ event ∈ entries, ∃ entry, event = .logged entry) ∧
      ((engine.tracker.judge announcement = .accepted ∧
          engine.applyUpdate number reason announcement =
            (({ engine with tracker := ⟨some announcement⟩ }).setCaller number
              (.interruptClaiming reason true), entries)) ∨
        (engine.tracker.judge announcement ≠ .accepted ∧
          engine.applyUpdate number reason announcement =
            (engine.setCaller number .idle,
              entries ++ [.returned (.noted false false)]))) := by
  let heard : List Event :=
    if reason = .peerBlock then [] else [.logged (.difficultyAnnounced announcement)]
  let remark (verdict : Tracker.Verdict) : List Event :=
    ((verdict.entry? announcement).map Event.logged).toList
  refine ⟨heard ++ remark (engine.tracker.judge announcement), ?_, ?_⟩
  · intro event member
    rcases List.mem_append.mp member with early | late
    · cases reason with
      | peerBlock => simp [heard] at early
      | difficultyChange => exact ⟨_, List.mem_singleton.mp early⟩
    · simp only [remark, Option.mem_toList, Option.map_eq_some_iff] at late
      obtain ⟨entry, _, rfl⟩ := late
      exact ⟨entry, rfl⟩
  · cases verdict : engine.tracker.judge announcement with
    | accepted =>
        left
        refine ⟨rfl, ?_⟩
        simp only [applyUpdate, Tracker.update, verdict]
        cases reason <;> rfl
    | zeroDifficulty =>
        right
        refine ⟨by simp, ?_⟩
        simp only [applyUpdate, Tracker.update, verdict]
        cases reason <;> rfl
    | outOfOrder last =>
        right
        refine ⟨by simp, ?_⟩
        simp only [applyUpdate, Tracker.update, verdict]
        cases reason <;> rfl

theorem stepCaller_cases
    (taken : engine.stepCaller number circumstances = some (next, events)) :
    CallerStep engine number circumstances next events := by
  cases standing : engine.callers number with
  | idle => simp [stepCaller, standing] at taken
  | startLocking context =>
      simp only [stepCaller, standing, takeLifecycle] at taken
      split at taken
      · cases taken
        exact .startLocking standing ‹_›
      · cases taken
  | startChecking context =>
      simp only [stepCaller, standing] at taken
      split at taken
      · cases taken
        exact .startChecking_unrated standing ‹_› rfl
      · cases taken
        exact .startChecking standing ‹_›
  | startRefusing fault reporting =>
      by_cases finished : reporting = .done
      · subst finished
        simp only [stepCaller, standing] at taken
        cases taken
        exact .startRefusing_done standing
      · simp only [stepCaller, standing] at taken
        cases taken
        exact .startRefusing standing finished
  | startClaiming context =>
      simp only [stepCaller, standing, takeSlot] at taken
      split at taken
      · cases taken
        exact .startClaiming standing ‹_›
      · cases taken
  | startDeciding context =>
      simp only [stepCaller, standing] at taken
      split at taken
      · cases taken
        exact .startDeciding_active standing ‹_›
      · cases taken
        exact .startDeciding standing ‹_›
  | startFilling generation worker =>
      simp only [stepCaller, standing] at taken
      cases taken
      exact .startFilling standing
  | startReleasing result =>
      simp only [stepCaller, standing] at taken
      cases taken
      exact .startReleasing standing
  | stopLocking =>
      simp only [stepCaller, standing, takeLifecycle] at taken
      split at taken
      · cases taken
        exact .stopLocking standing ‹_›
      · cases taken
  | stopClaiming =>
      simp only [stepCaller, standing, takeSlot] at taken
      split at taken
      · cases taken
        exact .stopClaiming standing ‹_›
      · cases taken
  | stopTaking =>
      simp only [stepCaller, standing] at taken
      cases taken
      exact .stopTaking standing
  | stopReleasing run =>
      cases run with
      | none =>
          simp only [stepCaller, standing] at taken
          cases taken
          exact .stopReleasing_none standing
      | some run =>
          simp only [stepCaller, standing] at taken
          cases taken
          exact .stopReleasing standing
  | stopSending run =>
      simp only [stepCaller, standing] at taken
      cases taken
      exact .stopSending standing
  | stopJoining run =>
      simp only [stepCaller, standing] at taken
      split at taken
      · cases taken
      · cases taken
        exact .stopJoining standing ((Bool.not_eq_true _).mp ‹_›)
  | stopAccounting run =>
      simp only [stepCaller, standing] at taken
      cases taken
      exact .stopAccounting standing
  | leaving result =>
      simp only [stepCaller, standing, finish] at taken
      cases taken
      exact .leaving standing
  | interruptClaiming reason notified =>
      simp only [stepCaller, standing, takeSlot] at taken
      split at taken
      · cases taken
        exact .interruptClaiming standing ‹_›
      · cases taken
  | interruptSending reason notified =>
      simp only [stepCaller, standing] at taken
      split at taken
      · split at taken
        · cases taken
          exact .interruptSending standing ‹_› ‹_›
        · cases taken
          refine .interruptSending_failed standing ?_
          intro run active
          simp_all
      · cases taken
        refine .interruptSending_failed standing ?_
        intro run active
        simp_all
  | interruptReleasing notified delivered =>
      simp only [stepCaller, standing, finish] at taken
      cases taken
      exact .interruptReleasing standing
  | peerCounting announcement =>
      simp only [stepCaller, standing] at taken
      cases taken
      exact .peerCounting standing
  | updating reason announcement =>
      simp only [stepCaller, standing] at taken
      obtain ⟨entries, logged, ⟨accepted, result⟩ | ⟨refused, result⟩⟩ :=
        applyUpdate_cases engine number reason announcement
      · rw [result] at taken
        cases taken
        exact .updating_accepted standing accepted logged
      · rw [result] at taken
        cases taken
        exact .updating_refused standing refused logged
  | exporting loaded =>
      simp only [stepCaller, standing, finish] at taken
      split at taken
      · cases taken
        exact .exporting_done standing ‹_›
      · cases taken
        exact .exporting standing ‹_›
  | closeClaiming =>
      simp only [stepCaller, standing, takeSlot] at taken
      split at taken
      · cases taken
        exact .closeClaiming standing ‹_›
      · cases taken
  | closeLooking =>
      simp only [stepCaller, standing] at taken
      cases taken
      exact .closeLooking standing
  | closeReleasing active =>
      cases active with
      | true =>
          simp only [stepCaller, standing] at taken
          cases taken
          exact .closeReleasing standing
      | false =>
          simp only [stepCaller, standing, finish] at taken
          cases taken
          exact .closeReleasing_idle standing
  | retiring retirement =>
      by_cases finished : retirement = .done
      · subst finished
        simp only [stepCaller, standing, finish] at taken
        cases taken
        exact .retiring_done standing
      · simp only [stepCaller, standing] at taken
        split at taken
        · cases taken
          exact .retiring standing ‹_›
        · cases taken
  | reporting reporting =>
      by_cases finished : reporting = .done
      · subst finished
        simp only [stepCaller, standing, finish] at taken
        cases taken
        exact .reporting_done standing
      · simp only [stepCaller, standing] at taken
        cases taken
        exact .reporting standing finished

end MiningAgent.Engine
