import MiningAgent.Proofs.Run.Records
import MiningAgent.Proofs.Run.Freshness
import Mathlib

/-!
# Balances over all workers

A sum over the workers changes only where a worker is spawned, is sent a signal or makes a
step.  What a worker's step does to its part of the sum can be told from the place where it
is made, so the sum is known from counting steps.
-/

namespace MiningAgent.Engine

/-- Where the worker stands whose step a moment is, and what the outside contributes. -/
def Moment.work? (moment : Moment) : Option (Position × Circumstances) :=
  match moment.move with
  | .step (.worker number) circumstances =>
      (moment.before.workers[number]?).map fun worker => (worker.position, circumstances)
  | _ => none

/-- Whether a moment is a worker's step of some kind. -/
def Moment.works (kind : Position → Circumstances → Bool) (moment : Moment) : Bool :=
  moment.work?.any fun work => kind work.1 work.2

/-- How many steps of a kind the workers made in a history. -/
def count (history : History) (kind : Position → Circumstances → Bool) : Nat :=
  history.countP (Moment.works kind)

/-- The sum of a value over all workers. -/
def total (engine : Engine) (value : Worker → Nat) : Nat := (engine.workers.map value).sum

variable {start finish engine next : Engine} {history : History} {moment : Moment}
  {move : Move} {number caller : Nat} {circumstances : Circumstances} {events : List Event}
  {kind other : Position → Circumstances → Bool}

theorem total_of_same (value : Worker → Nat) (same : next.workers = engine.workers) :
    next.total value = engine.total value := by
  rw [total, total, same]

theorem total_of_grown (value : Worker → Nat) {worker : Worker}
    (grown : next.workers = engine.workers ++ [worker]) :
    next.total value = engine.total value + value worker := by
  rw [total, total, grown]
  simp

theorem sum_modify (value : Worker → Nat) {workers : List Worker} {worker : Worker}
    {change : Worker → Worker}
    (found : workers[number]? = some worker) :
    ((workers.modify number change).map value).sum + value worker =
      (workers.map value).sum + value (change worker) := by
  induction workers generalizing number with
  | nil => cases found
  | cons first rest inductionHypothesis =>
      cases number with
      | zero =>
          cases found
          simp only [List.modify_zero_cons, List.map_cons, List.sum_cons]
          omega
      | succ number =>
          have sum := inductionHypothesis found
          simp only [List.modify_succ_cons, List.map_cons, List.sum_cons]
          omega

theorem total_of_changed (value : Worker → Nat) {worker : Worker} {change : Worker → Worker}
    (found : engine.workers[number]? = some worker)
    (changed : next.workers = engine.workers.modify number change) :
    next.total value + value worker = engine.total value + value (change worker) := by
  rw [total, total, changed]
  exact sum_modify value found

theorem total_eq_zero {value : Worker → Nat}
    (none : ∀ (number : Nat) worker, engine.workers[number]? = some worker →
      value worker = 0) : engine.total value = 0 := by
  rw [total, List.sum_eq_zero]
  intro part member
  obtain ⟨worker, present, rfl⟩ := List.mem_map.mp member
  obtain ⟨number, found⟩ := List.mem_iff_getElem?.mp present
  exact none number worker found

theorem count_append (history : History) (moment : Moment) :
    count (history ++ [moment]) kind = count history kind + (moment.works kind).toNat := by
  rw [count, count, List.countP_append, List.countP_singleton]
  cases moment.works kind <;> rfl

theorem count_le_length (history : History) : count history kind ≤ history.length :=
  List.countP_le_length

theorem works_of_work {position : Position} (work : moment.work? = some (position, circumstances)) :
    moment.works kind = kind position circumstances := by
  simp [Moment.works, work]

theorem works_of_still (still : moment.work? = none) : moment.works kind = false := by
  simp [Moment.works, still]

theorem count_or (disjoint : ∀ position circumstances,
      kind position circumstances = true → other position circumstances = false) :
    count history (fun position circumstances =>
        kind position circumstances || other position circumstances) =
      count history kind + count history other := by
  induction history with
  | nil => rfl
  | cons moment rest inductionHypothesis =>
      simp only [count, List.countP_cons] at inductionHypothesis ⊢
      rw [inductionHypothesis]
      cases work : moment.work? with
      | none => simp only [works_of_still work, Bool.false_eq_true, if_false, Nat.add_zero]
      | some shown =>
          obtain ⟨position, circumstances⟩ := shown
          simp only [works_of_work work]
          cases first : kind position circumstances with
          | true =>
              simp only [disjoint position circumstances first]
              simp only [Bool.true_or, if_true, Bool.false_eq_true, if_false]
              omega
          | false =>
              simp only [Bool.false_or, Bool.false_eq_true, if_false]
              omega

/-- A moment leaves the workers alone, spawns one, sends one a signal, or is the step of
one. -/
inductive Recast (moment : Moment) : Prop
  | same (still : moment.work? = none) (workers : moment.after.workers = moment.before.workers)
  | grown (still : moment.work? = none) (generation : UInt64) (context : Context)
      (workers : moment.after.workers =
        moment.before.workers ++ [⟨generation, context, .fresh, .entering⟩])
  | sent (still : moment.work? = none) {number : Nat} {worker : Worker} (signal : Signal)
      (told : signal = .stop ∨ moment.delivers = true)
      (found : moment.before.workers[number]? = some worker)
      (workers : moment.after.workers = moment.before.workers.modify number fun worker =>
        { worker with mailbox := worker.mailbox.send signal })
  | stepped {number : Nat} {circumstances : Circumstances} {worker : Worker}
      {change : Worker → Worker}
      (own : moment.move = .step (.worker number) circumstances)
      (found : moment.before.workers[number]? = some worker)
      (advance : worker.Advance moment.before circumstances (change worker))
      (workers : moment.after.workers = moment.before.workers.modify number change)

theorem work?_of_found {worker : Worker} (own : moment.move = .step (.worker number) circumstances)
    (found : moment.before.workers[number]? = some worker) :
    moment.work? = some (worker.position, circumstances) := by
  simp [Moment.work?, own, found]

theorem send_workers (number : Nat) (signal : Signal) :
    (engine.send number signal).workers = engine.workers ∨
      ∃ worker, engine.workers[number]? = some worker ∧
        (engine.send number signal).workers = engine.workers.modify number fun worker =>
          { worker with mailbox := worker.mailbox.send signal } := by
  unfold send
  split
  · rename_i receives
    right
    cases found : engine.workers[number]? with
    | none => simp [Engine.receives, found] at receives
    | some worker => exact ⟨worker, rfl, rfl⟩
  · exact .inl rfl

theorem Sound.stepCaller_recast (sound : engine.Sound)
    (taken : engine.stepCaller caller circumstances = some (next, events)) :
    Recast ⟨engine, .step (.caller caller) circumstances, events, next⟩ := by
  cases stepCaller_cases taken with
  | startDeciding standing vacant => exact .grown rfl _ _ rfl
  | @stopSending run standing =>
      rcases @send_workers engine run.worker .stop with same | ⟨worker, found, sent⟩
      · exact .same rfl same
      · exact .sent rfl .stop (.inl rfl) found sent
  | @interruptSending reason notified run standing active present =>
      rcases @send_workers engine run.worker (.interrupt reason) with same | ⟨worker, found, sent⟩
      · exact .same rfl same
      · refine .sent rfl (.interrupt reason) (.inr ?_) found sent
        simp [Moment.delivers, standing]
  | retiring standing given => exact (sound.not_retiring standing).elim
  | startRefusing standing unfinished | reporting standing unfinished =>
      exact .same rfl (by simp)
  | _ => exact .same rfl rfl

theorem Tended.stepWorker_recast (tended : engine.Tended)
    (taken : engine.stepWorker number circumstances = some (next, events)) :
    Recast ⟨engine, .step (.worker number) circumstances, events, next⟩ := by
  obtain ⟨worker, found⟩ := exists_of_stepWorker taken
  obtain ⟨later, advance, there, effect⟩ := stepWorker_cases taken found
  cases effect with
  | own stream tally change settled =>
      have moved : change worker = later := by simpa [found] using there
      exact .stepped rfl found (moved ▸ advance) rfl
  | retiring standing given =>
      have faultless := tended.faultless number worker found
      rw [standing] at faultless
      cases faultless

theorem Tended.recast (tended : engine.Tended)
    (made : engine.move? move = some (next, events)) :
    Recast ⟨engine, move, events, next⟩ := by
  cases move?_cases made with
  | call idle | failSpawn standing vacant | setReportPath => exact .same rfl rfl
  | caller taken => exact tended.sound.stepCaller_recast taken
  | worker taken => exact tended.stepWorker_recast taken

/-- A property of positions that steps of one kind give and steps of another kind take. -/
def Turns (mark : Position → Bool) (gain loss : Position → Circumstances → Bool) : Prop :=
  ∀ (engine : Engine) (circumstances : Circumstances) (worker later : Worker),
    worker.Advance engine circumstances later →
    worker.position.faultless = true → later.position.faultless = true →
    (mark later.position).toNat + (loss worker.position circumstances).toNat =
      (mark worker.position).toNat + (gain worker.position circumstances).toNat

variable {mark : Position → Bool} {gain loss : Position → Circumstances → Bool}

/-- The number of workers in a position with some property. -/
def marked (engine : Engine) (mark : Position → Bool) : Nat :=
  engine.total fun worker => (mark worker.position).toNat

theorem Turns.balance (turns : Turns mark gain loss) (entering : mark .entering = false)
    (tended : engine.Tended) (made : engine.move? move = some (next, events)) :
    next.marked mark + (Moment.works loss ⟨engine, move, events, next⟩).toNat =
      engine.marked mark + (Moment.works gain ⟨engine, move, events, next⟩).toNat := by
  have tendedLater := tended.kept made
  unfold marked
  cases tended.recast made with
  | same still workers =>
      rw [works_of_still still, works_of_still still, total_of_same _ workers]
  | grown still generation context workers =>
      rw [works_of_still still, works_of_still still, total_of_grown _ workers, entering]
      rfl
  | sent still signal told found workers =>
      have sum := total_of_changed (fun worker => (mark worker.position).toNat) found workers
      rw [works_of_still still, works_of_still still]
      simp only at sum
      omega
  | @stepped number circumstances worker change own found advance workers =>
      have sum := total_of_changed (fun worker => (mark worker.position).toNat) found workers
      have there : next.workers[number]? = some (change worker) := by
        simp [show next.workers = engine.workers.modify number change from workers, found]
      have law := turns _ _ _ _ advance (tended.faultless number worker found)
        (tendedLater.faultless number _ there)
      have work := work?_of_found own found
      rw [works_of_work work, works_of_work work]
      simp only at sum
      omega

/-- The workers in a marked position are as many as steps gave the mark and did not take
it. -/
theorem Reaches.balance (reached : start.Reaches history finish) (tended : start.Tended)
    (none : start.workers = []) (turns : Turns mark gain loss) (entering : mark .entering = false) :
    finish.marked mark + count history loss = count history gain := by
  induction reached with
  | refl =>
      rw [marked, total, none]
      rfl
  | @move history engine next move events reached made inductionHypothesis =>
      have tendedHere := reached.keeps (fun kept made => Tended.kept kept made) tended
      have step := turns.balance entering tendedHere made
      rw [count_append, count_append]
      omega

/-- A counter that only some steps of workers move, each by one. -/
theorem Reaches.counter (counter : Tally → UInt64) (kind : Position → Circumstances → Bool)
    (reached : start.Reaches history finish) (tended : start.Tended)
    (works : ∀ (position : Position) (circumstances : Circumstances) (tally : Tally),
      position.faultless = true →
      counter (position.record circumstances.now tally) =
        counter tally + UInt64.ofNat (kind position circumstances).toNat)
    (calls : ∀ {before : History} {middle next : Engine} {caller : Nat}
      {circumstances : Circumstances} {events : List Event},
      start.Reaches before middle → middle.stepCaller caller circumstances = some (next, events) →
        counter next.tally = counter middle.tally) :
    counter finish.tally = counter start.tally + UInt64.ofNat (count history kind) := by
  induction reached with
  | refl => simp [count]
  | @move history engine next move events reached made inductionHypothesis =>
      have tendedHere := reached.keeps (fun kept made => Tended.kept kept made) tended
      rw [count_append, UInt64.ofNat_add, ← UInt64.add_assoc, ← inductionHypothesis]
      cases move?_cases made with
      | call idle | failSpawn standing vacant | setReportPath =>
          simp [Moment.works, Moment.work?]
      | caller taken =>
          rw [calls reached taken]
          simp [Moment.works, Moment.work?]
      | @worker number circumstances _ _ taken =>
          obtain ⟨worker, found⟩ := exists_of_stepWorker taken
          rw [(stepWorker_leaves taken found).tally, works _ _ _ (tendedHere.faultless _ _ found)]
          simp [Moment.works, Moment.work?, found]

end MiningAgent.Engine
