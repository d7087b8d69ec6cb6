import MiningAgent.Run.Step
import Mathlib.Tactic.Common

/-!
# Frames

What the operations on an engine leave alone, and what following an actor does.
-/

namespace MiningAgent.Engine

variable (engine : Engine) (number : Nat)

@[simp]
theorem setCaller_callers (activity : Activity) (other : Nat) :
    (engine.setCaller number activity).callers other =
      if other = number then activity else engine.callers other := rfl

theorem setCaller_self (activity : Activity) :
    (engine.setCaller number activity).callers number = activity := by
  simp

@[simp]
theorem setCaller_agent (activity : Activity) :
    (engine.setCaller number activity).agent = engine.agent := rfl

@[simp]
theorem setCaller_stream (activity : Activity) :
    (engine.setCaller number activity).stream = engine.stream := rfl

@[simp]
theorem setCaller_tracker (activity : Activity) :
    (engine.setCaller number activity).tracker = engine.tracker := rfl

@[simp]
theorem setCaller_tally (activity : Activity) :
    (engine.setCaller number activity).tally = engine.tally := rfl

@[simp]
theorem setCaller_slot (activity : Activity) :
    (engine.setCaller number activity).slot = engine.slot := rfl

@[simp]
theorem setCaller_lifecycleHolder (activity : Activity) :
    (engine.setCaller number activity).lifecycleHolder = engine.lifecycleHolder := rfl

@[simp]
theorem setCaller_slotHolder (activity : Activity) :
    (engine.setCaller number activity).slotHolder = engine.slotHolder := rfl

@[simp]
theorem setCaller_workers (activity : Activity) :
    (engine.setCaller number activity).workers = engine.workers := rfl

theorem setCaller_setCaller (activity after : Activity) :
    (engine.setCaller number activity).setCaller number after =
      engine.setCaller number after := by
  simp only [setCaller]
  congr 1
  funext other
  split <;> rfl

@[simp]
theorem changeWorker_getElem? (change : Worker → Worker) (other : Nat) :
    (engine.changeWorker number change).workers[other]? =
      if number = other then engine.workers[other]?.map change else engine.workers[other]? := by
  simp only [changeWorker, List.getElem?_modify]
  split <;> simp

@[simp]
theorem changeWorker_length (change : Worker → Worker) :
    (engine.changeWorker number change).workers.length = engine.workers.length := by
  simp [changeWorker]

@[simp]
theorem changeWorker_agent (change : Worker → Worker) :
    (engine.changeWorker number change).agent = engine.agent := rfl

@[simp]
theorem changeWorker_stream (change : Worker → Worker) :
    (engine.changeWorker number change).stream = engine.stream := rfl

@[simp]
theorem changeWorker_tracker (change : Worker → Worker) :
    (engine.changeWorker number change).tracker = engine.tracker := rfl

@[simp]
theorem changeWorker_tally (change : Worker → Worker) :
    (engine.changeWorker number change).tally = engine.tally := rfl

@[simp]
theorem changeWorker_slot (change : Worker → Worker) :
    (engine.changeWorker number change).slot = engine.slot := rfl

@[simp]
theorem changeWorker_lifecycleHolder (change : Worker → Worker) :
    (engine.changeWorker number change).lifecycleHolder = engine.lifecycleHolder := rfl

@[simp]
theorem changeWorker_slotHolder (change : Worker → Worker) :
    (engine.changeWorker number change).slotHolder = engine.slotHolder := rfl

@[simp]
theorem changeWorker_callers (change : Worker → Worker) :
    (engine.changeWorker number change).callers = engine.callers := rfl

@[simp]
theorem moveWorker_eq (position : Position) :
    engine.moveWorker number position =
      engine.changeWorker number fun worker => { worker with position := position } := rfl

/-- A draw at no rate sends its worker into retirement. -/
theorem drawDelay_unrated (worker : Worker) {seen : Announcement}
    (unrated : engine.agent.hashrate.perSecond = 0 ∨ seen.difficulty = 0) :
    engine.drawDelay number worker seen =
      (engine.moveWorker number (.retiring (.locking worker.generation)
        (.invalidRate engine.agent.hashrate.perSecond seen.difficulty)), []) := by
  simp only [drawDelay, Discovery.drawDelay_unrated unrated]

variable {engine number} in
/-- A change of a worker is what it does to that worker. -/
theorem changeWorker_congr {change same : Worker → Worker}
    (agree : ∀ worker, engine.workers[number]? = some worker → change worker = same worker) :
    engine.changeWorker number change = engine.changeWorker number same := by
  have workers : engine.workers.modify number change = engine.workers.modify number same := by
    apply List.ext_getElem?
    intro other
    simp only [List.getElem?_modify]
    by_cases own : number = other
    · subst own
      cases found : engine.workers[number]? with
      | none => simp
      | some worker => simp [agree worker found]
    · simp [own]
  rw [changeWorker, workers, ← changeWorker]

theorem changeWorker_changeWorker (change more : Worker → Worker) :
    (engine.changeWorker number change).changeWorker number more =
      engine.changeWorker number (more ∘ change) := by
  simp only [changeWorker, List.modify_modify_eq]

theorem moveWorker_moveWorker (position later : Position) :
    (engine.moveWorker number position).moveWorker number later =
      engine.moveWorker number later := by
  simp only [moveWorker_eq, changeWorker_changeWorker]
  rfl

theorem send_eq (signal : Signal) :
    ∃ workers : List Worker, engine.send number signal = { engine with workers := workers } := by
  unfold send
  split
  · exact ⟨_, rfl⟩
  · exact ⟨engine.workers, rfl⟩

@[simp]
theorem send_length (signal : Signal) :
    (engine.send number signal).workers.length = engine.workers.length := by
  unfold send
  split
  · exact changeWorker_length engine number _
  · rfl

@[simp]
theorem send_agent (signal : Signal) :
    (engine.send number signal).agent = engine.agent := by
  obtain ⟨workers, same⟩ := send_eq engine number signal
  rw [same]

@[simp]
theorem send_stream (signal : Signal) :
    (engine.send number signal).stream = engine.stream := by
  obtain ⟨workers, same⟩ := send_eq engine number signal
  rw [same]

@[simp]
theorem send_tracker (signal : Signal) :
    (engine.send number signal).tracker = engine.tracker := by
  obtain ⟨workers, same⟩ := send_eq engine number signal
  rw [same]

@[simp]
theorem send_tally (signal : Signal) :
    (engine.send number signal).tally = engine.tally := by
  obtain ⟨workers, same⟩ := send_eq engine number signal
  rw [same]

@[simp]
theorem send_slot (signal : Signal) :
    (engine.send number signal).slot = engine.slot := by
  obtain ⟨workers, same⟩ := send_eq engine number signal
  rw [same]

@[simp]
theorem send_lifecycleHolder (signal : Signal) :
    (engine.send number signal).lifecycleHolder = engine.lifecycleHolder := by
  obtain ⟨workers, same⟩ := send_eq engine number signal
  rw [same]

@[simp]
theorem send_slotHolder (signal : Signal) :
    (engine.send number signal).slotHolder = engine.slotHolder := by
  obtain ⟨workers, same⟩ := send_eq engine number signal
  rw [same]

@[simp]
theorem send_callers (signal : Signal) :
    (engine.send number signal).callers = engine.callers := by
  obtain ⟨workers, same⟩ := send_eq engine number signal
  rw [same]

theorem stepReporting_eq (circumstances : Circumstances) (reporting : Reporting) :
    ∃ tally : Tally, (engine.stepReporting circumstances reporting).2.1 =
      { engine with tally := tally } := by
  cases reporting with
  | counting fault => exact ⟨engine.tally.countError, rfl⟩
  | judging fault => exact ⟨engine.tally, rfl⟩
  | loading path loaded =>
      refine ⟨engine.tally, ?_⟩
      simp only [stepReporting]
      split <;> rfl
  | writing path tally =>
      refine ⟨engine.tally, ?_⟩
      simp only [stepReporting]
      split <;> rfl
  | done => exact ⟨engine.tally, rfl⟩

@[simp]
theorem stepReporting_agent (circumstances : Circumstances) (reporting : Reporting) :
    (engine.stepReporting circumstances reporting).2.1.agent = engine.agent := by
  obtain ⟨tally, same⟩ := stepReporting_eq engine circumstances reporting
  rw [same]

@[simp]
theorem stepReporting_stream (circumstances : Circumstances) (reporting : Reporting) :
    (engine.stepReporting circumstances reporting).2.1.stream = engine.stream := by
  obtain ⟨tally, same⟩ := stepReporting_eq engine circumstances reporting
  rw [same]

@[simp]
theorem stepReporting_tracker (circumstances : Circumstances) (reporting : Reporting) :
    (engine.stepReporting circumstances reporting).2.1.tracker = engine.tracker := by
  obtain ⟨tally, same⟩ := stepReporting_eq engine circumstances reporting
  rw [same]

@[simp]
theorem stepReporting_slot (circumstances : Circumstances) (reporting : Reporting) :
    (engine.stepReporting circumstances reporting).2.1.slot = engine.slot := by
  obtain ⟨tally, same⟩ := stepReporting_eq engine circumstances reporting
  rw [same]

@[simp]
theorem stepReporting_lifecycleHolder (circumstances : Circumstances) (reporting : Reporting) :
    (engine.stepReporting circumstances reporting).2.1.lifecycleHolder = engine.lifecycleHolder := by
  obtain ⟨tally, same⟩ := stepReporting_eq engine circumstances reporting
  rw [same]

@[simp]
theorem stepReporting_slotHolder (circumstances : Circumstances) (reporting : Reporting) :
    (engine.stepReporting circumstances reporting).2.1.slotHolder = engine.slotHolder := by
  obtain ⟨tally, same⟩ := stepReporting_eq engine circumstances reporting
  rw [same]

@[simp]
theorem stepReporting_workers (circumstances : Circumstances) (reporting : Reporting) :
    (engine.stepReporting circumstances reporting).2.1.workers = engine.workers := by
  obtain ⟨tally, same⟩ := stepReporting_eq engine circumstances reporting
  rw [same]

@[simp]
theorem stepReporting_callers (circumstances : Circumstances) (reporting : Reporting) :
    (engine.stepReporting circumstances reporting).2.1.callers = engine.callers := by
  obtain ⟨tally, same⟩ := stepReporting_eq engine circumstances reporting
  rw [same]

section

variable {engine : Engine} {actor : Actor} {circumstances : Engine → Circumstances}

theorem follow_blocked (blocked : engine.step actor (circumstances engine) = none)
    (bound : Nat) : follow actor circumstances bound engine = (engine, []) := by
  cases bound with
  | zero => rfl
  | succ bound => simp only [follow, blocked]

theorem follow_step {next : Engine} {events : List Event} {bound : Nat}
    (taken : engine.step actor (circumstances engine) = some (next, events)) :
    follow actor circumstances (bound + 1) engine =
      ((follow actor circumstances bound next).1,
        events ++ (follow actor circumstances bound next).2) := by
  simp only [follow, taken]

end

end MiningAgent.Engine
