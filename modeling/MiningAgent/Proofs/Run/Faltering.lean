import MiningAgent.Proofs.Run.Tending

/-!
# Histories in which draws fail

A worker whose draw fails gives up its run by itself, while starts and stops go on around it.
`Engine.Falters` collects the histories in which that happens to any worker in any iteration.
The invariant of the worker in charge survives it.
-/

namespace MiningAgent.Engine

variable {start finish engine next : Engine} {history : History} {moment : Moment}
  {number : Nat} {fault : Fault} {circumstances : Circumstances} {events : List Event}

/-- What becomes of a worker whose draw fails: it goes to give up its run. -/
def failDraw (engine : Engine) (number : Nat) (fault : Fault) : Option Engine :=
  match engine.workers[number]? with
  | some worker =>
      match worker.position with
      | .drawing _ =>
          some (engine.moveWorker number (.retiring (.locking worker.generation) fault))
      | _ => none
  | none => none

theorem failDraw_cases (failed : engine.failDraw number fault = some next) :
    ∃ worker seen, engine.workers[number]? = some worker ∧ worker.position = .drawing seen ∧
      next = engine.moveWorker number (.retiring (.locking worker.generation) fault) := by
  unfold failDraw at failed
  split at failed
  · rename_i worker found
    split at failed
    · rename_i seen standing
      exact ⟨worker, seen, found, standing, (Option.some.inj failed).symm⟩
    · cases failed
  · cases failed

/-- A draw fails by itself if its rate is zero or undefined. -/
theorem stepWorker_of_unrated {worker : Worker} {seen : Announcement}
    (found : engine.workers[number]? = some worker)
    (standing : worker.position = .drawing seen)
    (unrated : engine.agent.hashrate.perSecond = 0 ∨ seen.difficulty = 0) :
    engine.stepWorker number circumstances =
      (engine.failDraw number
        (.invalidRate engine.agent.hashrate.perSecond seen.difficulty)).map
        fun failed => (failed, []) := by
  simp only [stepWorker, failDraw, found, standing, drawDelay_unrated engine number worker unrated,
    Option.map_some]

/-- A move, or a worker's step at which its draw fails. -/
inductive Moment.Happens (moment : Moment) : Prop
  | made (made : moment.before.move? moment.move = some (moment.after, moment.events))
  | failed {number : Nat} {circumstances : Circumstances} {fault : Fault}
      (own : moment.move = .step (.worker number) circumstances)
      (failed : moment.before.failDraw number fault = some moment.after)
      (silent : moment.events = [])

/-- `start.Falters history finish`: the history leads from `start` to `finish`, and any draw
in it may fail. -/
inductive Falters (start : Engine) : History → Engine → Prop
  | refl : Falters start [] start
  | next {history : History} {moment : Moment} :
      Falters start history moment.before → moment.Happens →
      Falters start (history ++ [moment]) moment.after

theorem Falters.append {before after : History} {middle : Engine}
    (first : start.Falters before middle) (second : middle.Reaches after finish) :
    start.Falters (before ++ after) finish := by
  induction second with
  | refl => simpa using first
  | @move history engine next move events _ made inductionHypothesis =>
      have happens : Moment.Happens ⟨engine, move, events, next⟩ := .made made
      rw [← List.append_assoc]
      exact inductionHypothesis.next happens

theorem Reaches.falters (reached : start.Reaches history finish) :
    start.Falters history finish :=
  Falters.refl.append reached

theorem Falters.keeps {invariant : Engine → Prop}
    (kept : ∀ {moment : Moment}, invariant moment.before → moment.Happens →
      invariant moment.after)
    (reached : start.Falters history finish) (holds : invariant start) :
    invariant finish ∧ ∀ moment ∈ history, invariant moment.before ∧ moment.Happens := by
  induction reached with
  | refl => exact ⟨holds, by simp⟩
  | @next history moment reached happens inductionHypothesis =>
      obtain ⟨here, along⟩ := inductionHypothesis
      refine ⟨kept here happens, ?_⟩
      intro other member
      rcases List.mem_append.mp member with old | new
      · exact along other old
      · rw [List.mem_singleton.mp new]
        exact ⟨here, happens⟩

private def unrated (engine : Engine) : Engine :=
  { engine with agent := { engine.agent with hashrate := ⟨0⟩ } }

/-- A moment advances the worker whose step it is and at most touches every other. -/
theorem Moment.Happens.worker {worker : Worker} (happens : moment.Happens)
    (found : moment.before.workers[number]? = some worker) :
    ∃ later, moment.after.workers[number]? = some later ∧
      ((∃ engine circumstances, worker.Advance engine circumstances later) ∨
        worker.Touched later) := by
  cases happens with
  | made made =>
      obtain ⟨later, there, ⟨circumstances, _, advance⟩ | ⟨_, touched⟩⟩ :=
        move?_worker made found
      · exact ⟨later, there, .inl ⟨_, circumstances, advance⟩⟩
      · exact ⟨later, there, .inr touched⟩
  | @failed stepping circumstances fault own failed silent =>
      obtain ⟨failing, seen, present, standing, after⟩ := failDraw_cases failed
      by_cases same : stepping = number
      · subst same
        cases Option.some.inj (present.symm.trans found)
        refine ⟨{ worker with position := .retiring (.locking worker.generation) fault },
          ?_, .inl ⟨moment.before.unrated, circumstances, ?_⟩⟩
        · simp [after, found]
        · exact .drawing_unrated standing (.inl rfl)
      · refine ⟨worker, ?_, .inr (.refl worker)⟩
        simp [after, same, found]

theorem Moment.Happens.newcomer {worker : Worker} (happens : moment.Happens)
    (absent : moment.before.workers[number]? = none)
    (found : moment.after.workers[number]? = some worker) :
    number = moment.before.workers.length ∧ ∃ caller context,
      moment.before.callers caller = .startDeciding context ∧
      worker = ⟨moment.before.slot.lastGeneration + 1, context, .fresh, .entering⟩ := by
  cases happens with
  | made made =>
      obtain ⟨last, caller, _, context, _, launching, entering⟩ :=
        move?_newcomer made absent found
      exact ⟨last, caller, context, launching, entering⟩
  | failed own failed silent =>
      obtain ⟨_, _, _, _, after⟩ := failDraw_cases failed
      have outside := List.getElem?_eq_none_iff.mp absent
      have inside := (List.getElem?_eq_some_iff.mp found).1
      rw [after, moveWorker_eq, changeWorker_length] at inside
      omega

/-- Moving a worker to a place that says the same about the slot lock, and no more about its
run, keeps the invariant. -/
theorem Sound.moveWorker {worker : Worker} {position : Position} (sound : engine.Sound)
    (found : engine.workers[number]? = some worker)
    (slot : position.holdsSlot = worker.position.holdsSlot)
    (attached : position.attached = true → worker.position.attached = true) :
    (engine.moveWorker number position).Sound := by
  have alone (other : Nat) (different : number ≠ other) :
      (engine.moveWorker number position).workers[other]? = engine.workers[other]? := by
    simp [different]
  have moved : (engine.moveWorker number position).workers[number]? =
      some { worker with position := position } := by
    simp [found]
  refine ⟨⟨sound.locked.lifecycle, ?_⟩, sound.proper, sound.vacant, ?_, ?_⟩
  · intro actor
    have before := sound.locked.slot actor
    cases actor with
    | caller other => exact before
    | worker other =>
        by_cases same : number = other
        · subst same
          rw [holdsSlot_iff_of_found found] at before
          rw [holdsSlot_iff_of_found moved, slot]
          exact before
        · simp only [HoldsSlot, alone other same]
          exact before
  · intro other charged
    rw [moveWorker_eq, changeWorker_length]
    exact sound.present other charged
  · intro other later there serves
    by_cases same : number = other
    · subst same
      cases Option.some.inj (moved.symm.trans there)
      exact sound.governed number worker found (attached serves)
    · rw [alone other same] at there
      exact sound.governed other later there serves

theorem Sound.happens (sound : moment.before.Sound) (happens : moment.Happens) :
    moment.after.Sound := by
  cases happens with
  | made made => exact sound.kept made
  | failed own failed silent =>
      obtain ⟨worker, seen, found, standing, after⟩ := failDraw_cases failed
      rw [after]
      apply sound.moveWorker found
      · rw [standing]
        rfl
      · intro _
        rw [standing]
        rfl

/-- A worker that has given up its run never takes it up again. -/
theorem Falters.detached (reached : start.Falters history finish) {moment : Moment}
    (member : moment ∈ history) {worker : Worker}
    (found : moment.after.workers[number]? = some worker)
    (detached : worker.position.attached = false) :
    ∃ later, finish.workers[number]? = some later ∧ later.position.attached = false := by
  induction reached with
  | refl => cases member
  | @next history last reached happens inductionHypothesis =>
      rcases List.mem_append.mp member with old | new
      · obtain ⟨middle, present, away⟩ := inductionHypothesis old
        obtain ⟨later, there, step⟩ := happens.worker present
        refine ⟨later, there, ?_⟩
        rcases step with ⟨_, _, advance⟩ | touched
        · by_contra attached
          have before := advance.attached (Bool.not_eq_false _ ▸ attached)
          rw [away] at before
          cases before
        · rw [touched.position]
          exact away
      · rw [List.mem_singleton.mp new] at found
        exact ⟨worker, found, detached⟩

end MiningAgent.Engine
