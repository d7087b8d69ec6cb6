import MiningAgent.Proofs.Run.Advance

/-!
# Histories

How histories are joined and split, where the actor of a moment stands, and what one
move does to a single worker.
-/

namespace MiningAgent.Engine

/-- The caller that a move is about. -/
def Move.caller? : Move → Option Nat
  | .call number _ => some number
  | .step (.caller number) _ => some number
  | .failSpawn number _ => some number
  | _ => none

namespace Moment

/-- Where the caller stands whose step the moment is. -/
def activity? (moment : Moment) : Option Activity :=
  match moment.move with
  | .step (.caller number) _ => some (moment.before.callers number)
  | _ => none

/-- Where a worker stands, if the moment is its step. -/
def position? (moment : Moment) (number : Nat) : Option Position :=
  match moment.move with
  | .step (.worker other) _ =>
      if other = number then (moment.before.workers[number]?).map Worker.position else none
  | _ => none

theorem exists_of_activity? {moment : Moment} {activity : Activity}
    (standing : moment.activity? = some activity) :
    ∃ number circumstances, moment.move = .step (.caller number) circumstances ∧
      moment.before.callers number = activity := by
  unfold activity? at standing
  split at standing
  · exact ⟨_, _, ‹_›, Option.some.inj standing⟩
  · cases standing

theorem exists_of_position? {moment : Moment} {number : Nat} {position : Position}
    (standing : moment.position? number = some position) :
    ∃ circumstances worker, moment.move = .step (.worker number) circumstances ∧
      moment.before.workers[number]? = some worker ∧ worker.position = position := by
  unfold position? at standing
  split at standing
  · split at standing
    · rename_i same
      subst same
      obtain ⟨worker, found, stands⟩ := Option.map_eq_some_iff.mp standing
      exact ⟨_, worker, ‹_›, found, stands⟩
    · cases standing
  · cases standing

theorem position?_of_step {moment : Moment} {number : Nat} {worker : Worker}
    {circumstances : Circumstances}
    (own : moment.move = .step (.worker number) circumstances)
    (found : moment.before.workers[number]? = some worker) :
    moment.position? number = some worker.position := by
  simp [position?, own, found]

theorem position?_of_other {moment : Moment} {number : Nat}
    (others : ∀ circumstances, moment.move ≠ .step (.worker number) circumstances) :
    moment.position? number = none := by
  cases stands : moment.position? number with
  | none => rfl
  | some position =>
      obtain ⟨circumstances, _, own, _⟩ := exists_of_position? stands
      exact absurd own (others circumstances)

end Moment

variable {start middle finish engine next : Engine} {before after : History}
  {move : Move} {number : Nat} {circumstances : Circumstances} {events : List Event}

theorem Reaches.append
    (first : start.Reaches before middle) (second : middle.Reaches after finish) :
    start.Reaches (before ++ after) finish := by
  induction second with
  | refl => simpa using first
  | move _ made inductionHypothesis =>
      rw [← List.append_assoc]
      exact inductionHypothesis.move made

theorem Reaches.split (whole : start.Reaches (before ++ after) finish) :
    ∃ middle, start.Reaches before middle ∧ middle.Reaches after finish := by
  generalize joined : before ++ after = history at whole
  induction whole generalizing after with
  | refl =>
      obtain ⟨rfl, rfl⟩ := List.append_eq_nil_iff.mp joined
      exact ⟨start, .refl, .refl⟩
  | @move history engine next move events reached made inductionHypothesis =>
      rcases List.eq_nil_or_concat after with rfl | ⟨earlier, last, rfl⟩
      · rw [List.append_nil] at joined
        subst joined
        exact ⟨next, reached.move made, .refl⟩
      · rw [List.concat_eq_append, ← List.append_assoc] at joined
        obtain ⟨rfl, same⟩ := List.append_inj' joined rfl
        cases same
        obtain ⟨middle, first, second⟩ := inductionHypothesis rfl
        refine ⟨middle, first, ?_⟩
        rw [List.concat_eq_append]
        exact second.move made

/-- A history can be cut open at any of its moments. -/
theorem Reaches.cut {moment : Moment}
    (whole : start.Reaches (before ++ moment :: after) finish) :
    start.Reaches before moment.before ∧
      moment.before.move? moment.move = some (moment.after, moment.events) ∧
      moment.after.Reaches after finish := by
  rw [List.append_cons] at whole
  obtain ⟨middle, first, second⟩ := whole.split
  generalize ends : before ++ [moment] = history at first
  cases first with
  | refl => simp at ends
  | move reached made =>
      obtain ⟨rfl, same⟩ := List.append_inj' ends rfl
      cases same
      exact ⟨reached, made, second⟩

theorem reaches_single (made : engine.move? move = some (next, events)) :
    engine.Reaches [⟨engine, move, events, next⟩] next :=
  Reaches.refl.move made

theorem reaches_record (moves : List Move) :
    engine.Reaches (engine.record moves).1 (engine.record moves).2 := by
  induction moves generalizing engine with
  | nil => exact .refl
  | cons move rest inductionHypothesis =>
      simp only [record]
      split
      · exact .refl
      · rename_i next events made
        exact (reaches_single made).append inductionHypothesis

/-- What one move keeps is kept by every history. -/
theorem Reaches.keeps {invariant : Engine → Prop}
    (kept : ∀ {engine next : Engine} {move : Move} {events : List Event},
      invariant engine → engine.move? move = some (next, events) → invariant next)
    (reached : start.Reaches before finish) (holds : invariant start) :
    invariant finish := by
  induction reached with
  | refl => exact holds
  | move _ made inductionHypothesis => exact kept inductionHypothesis made

/-- What every admitted move keeps holds before each moment of a history that consists of
admitted moments. -/
theorem Reaches.keeps_along {invariant : Engine → Prop} {admitted : Moment → Prop}
    (kept : ∀ {engine next : Engine} {move : Move} {events : List Event},
      invariant engine → engine.move? move = some (next, events) →
      admitted ⟨engine, move, events, next⟩ → invariant next)
    (reached : start.Reaches before finish) (holds : invariant start)
    (admits : ∀ moment ∈ before, admitted moment) :
    invariant finish ∧ ∀ moment ∈ before, invariant moment.before ∧
      moment.before.move? moment.move = some (moment.after, moment.events) := by
  induction reached with
  | refl => exact ⟨holds, by simp⟩
  | @move history engine next move events reached made inductionHypothesis =>
      have earlier : ∀ moment ∈ history, admitted moment := by
        intro moment member
        exact admits moment (List.mem_append_left _ member)
      obtain ⟨here, along⟩ := inductionHypothesis earlier
      refine ⟨kept here made (admits _ (by simp)), ?_⟩
      intro moment member
      rcases List.mem_append.mp member with old | new
      · exact along moment old
      · cases List.mem_singleton.mp new
        exact ⟨here, made⟩

/-- The cases of `Engine.move?`. -/
inductive Moved (engine : Engine) : Move → Engine → List Event → Prop
  | call {number : Nat} {call : Call} (idle : engine.callers number = .idle) :
      Moved engine (.call number call) (engine.setCaller number call.entry) []
  | failSpawn {number : Nat} {reason : String} {context : Context} {fault : Fault}
      (standing : engine.callers number = .startDeciding context)
      (vacant : engine.slot.active = none) :
      Moved engine (.failSpawn number reason)
        (engine.setCaller number (.startReleasing (.refused fault)))
        [.logged (.workerMissing reason)]
  | setReportPath {path : Option String} :
      Moved engine (.setReportPath path) { engine with reportPath := path } []
  | caller {number : Nat} {circumstances : Circumstances} {next : Engine}
      {events : List Event}
      (taken : engine.stepCaller number circumstances = some (next, events)) :
      Moved engine (.step (.caller number) circumstances) next events
  | worker {number : Nat} {circumstances : Circumstances} {next : Engine}
      {events : List Event}
      (taken : engine.stepWorker number circumstances = some (next, events)) :
      Moved engine (.step (.worker number) circumstances) next events

theorem move?_cases (made : engine.move? move = some (next, events)) :
    engine.Moved move next events := by
  cases move with
  | call number call =>
      obtain ⟨begun, entered, same⟩ := Option.map_eq_some_iff.mp made
      cases same
      unfold begin at entered
      split at entered
      · cases entered
        exact .call ‹_›
      · cases entered
  | failSpawn number reason =>
      simp only [move?, failSpawn] at made
      split at made
      · cases made
        exact .failSpawn ‹_› ‹_›
      · cases made
  | setReportPath path =>
      cases made
      exact .setReportPath
  | step actor circumstances =>
      cases actor with
      | caller number => exact .caller made
      | worker number => exact .worker made

theorem send_cases {worker : Worker} (target : Nat) (signal : Signal)
    (found : engine.workers[number]? = some worker) :
    (engine.send target signal).workers[number]? = some worker ∨
      target = number ∧ (engine.send target signal).workers[number]? =
        some { worker with mailbox := worker.mailbox.send signal } := by
  unfold send
  split
  · by_cases same : target = number
    · right
      refine ⟨same, ?_⟩
      simp [same, found]
    · left
      simp [same, found]
  · exact .inl found

theorem send_touches {worker : Worker} (target : Nat) (signal : Signal)
    (found : engine.workers[number]? = some worker) :
    ∃ later, worker.Touched later ∧
      (engine.send target signal).workers[number]? = some later := by
  rcases send_cases target signal found with same | ⟨_, sent⟩
  · exact ⟨worker, .refl worker, same⟩
  · exact ⟨{ worker with mailbox := worker.mailbox.send signal },
      ⟨rfl, rfl, rfl, [signal], rfl⟩, sent⟩

theorem stepCaller_touches {actor : Nat} {worker : Worker}
    (taken : engine.stepCaller actor circumstances = some (next, events))
    (found : engine.workers[number]? = some worker) :
    ∃ later, worker.Touched later ∧ next.workers[number]? = some later := by
  cases stepCaller_cases taken with
  | startDeciding standing vacant =>
      refine ⟨worker, .refl worker, ?_⟩
      have inside : number < engine.workers.length := (List.getElem?_eq_some_iff.mp found).1
      simp only [setCaller_workers, spawn, List.getElem?_append_left inside, found]
  | stopSending standing => exact send_touches _ _ found
  | interruptSending standing active present => exact send_touches _ _ found
  | startRefusing standing unfinished => exact ⟨worker, .refl worker, by simpa using found⟩
  | reporting standing unfinished => exact ⟨worker, .refl worker, by simpa using found⟩
  | retiring standing given =>
      obtain ⟨mailbox, queue, kept⟩ := stepRetirement_worker given found
      exact ⟨{ worker with mailbox := mailbox }, ⟨rfl, rfl, rfl, [], by simp [queue]⟩, kept⟩
  | _ => exact ⟨worker, .refl worker, found⟩

theorem stepWorker_touches {actor : Nat} {worker : Worker} (other : actor ≠ number)
    (taken : engine.stepWorker actor circumstances = some (next, events))
    (found : engine.workers[number]? = some worker) :
    ∃ later, worker.Touched later ∧ next.workers[number]? = some later := by
  obtain ⟨stepping, _, effect⟩ := stepWorker_effect taken
  cases effect with
  | own stream tally change settled =>
      refine ⟨worker, .refl worker, ?_⟩
      simp [other, found]
  | retiring standing given =>
      obtain ⟨mailbox, queue, kept⟩ := stepRetirement_worker given found
      refine ⟨{ worker with mailbox := mailbox },
        ⟨rfl, rfl, rfl, [], by simp [queue]⟩, ?_⟩
      simpa [other] using kept

/-- A move advances the worker whose step it is and at most touches every other. -/
theorem move?_worker {worker : Worker}
    (made : engine.move? move = some (next, events))
    (found : engine.workers[number]? = some worker) :
    ∃ later, next.workers[number]? = some later ∧
      ((∃ circumstances, move = .step (.worker number) circumstances ∧
          worker.Advance engine circumstances later) ∨
        ((∀ circumstances, move ≠ .step (.worker number) circumstances) ∧
          worker.Touched later)) := by
  cases move?_cases made with
  | call idle => exact ⟨worker, found, .inr ⟨by simp, .refl worker⟩⟩
  | failSpawn standing vacant => exact ⟨worker, found, .inr ⟨by simp, .refl worker⟩⟩
  | setReportPath => exact ⟨worker, found, .inr ⟨by simp, .refl worker⟩⟩
  | caller taken =>
      obtain ⟨later, touched, kept⟩ := stepCaller_touches taken found
      exact ⟨later, kept, .inr ⟨by simp, touched⟩⟩
  | worker taken =>
      rename_i stepping circumstances
      by_cases same : stepping = number
      · subst same
        obtain ⟨later, advance, kept, _⟩ := stepWorker_cases taken found
        exact ⟨later, kept, .inl ⟨circumstances, rfl, advance⟩⟩
      · obtain ⟨later, touched, kept⟩ := stepWorker_touches same taken found
        refine ⟨later, kept, .inr ⟨?_, touched⟩⟩
        intro _ own
        cases own
        exact same rfl

/-- A worker that has exited stays so. -/
theorem move?_exited {worker later : Worker}
    (made : engine.move? move = some (next, events))
    (found : engine.workers[number]? = some worker)
    (there : next.workers[number]? = some later) (exited : worker.position = .exited) :
    later.position = .exited := by
  obtain ⟨after, present, step⟩ := move?_worker made found
  cases Option.some.inj (present.symm.trans there)
  rcases step with ⟨_, _, advance⟩ | ⟨_, touched⟩
  · exact (advance.not_exited exited).elim
  · rw [touched.position, exited]

theorem stepRetirement_workers {actor : Actor} {retirement later : Retirement}
    {changed : Engine}
    (given : engine.stepRetirement actor circumstances retirement = some (later, changed)) :
    changed.workers.length = engine.workers.length := by
  cases stepRetirement_cases given with
  | accounting => simp [disconnect, changeWorker]
  | _ => rfl

/-- Only a start that finds the slot empty adds a worker, and adds it behind all
others. -/
theorem move?_workers_length
    (made : engine.move? move = some (next, events)) :
    next.workers.length = engine.workers.length ∨
      ∃ caller circumstances context,
        move = .step (.caller caller) circumstances ∧
        engine.callers caller = .startDeciding context ∧
        engine.slot.active = none ∧
        next = (engine.spawn context).setCaller caller
          (.startFilling (engine.slot.lastGeneration + 1) engine.workers.length) := by
  cases move?_cases made with
  | call idle | failSpawn standing vacant | setReportPath => exact .inl rfl
  | worker taken =>
      left
      obtain ⟨worker, _, effect⟩ := stepWorker_effect taken
      cases effect with
      | own stream tally change settled => simp
      | retiring standing given => simpa using stepRetirement_workers given
  | caller taken =>
      rename_i caller circumstances
      cases stepCaller_cases taken with
      | startDeciding standing vacant =>
          exact .inr ⟨caller, circumstances, _, rfl, standing, vacant, rfl⟩
      | stopSending standing | interruptSending standing active present
      | startRefusing standing unfinished | reporting standing unfinished =>
          left
          simp
      | retiring standing given =>
          left
          simpa using stepRetirement_workers given
      | _ => exact .inl rfl

/-- A worker that was not there before the move is about to enter its loop. -/
theorem move?_newcomer {worker : Worker}
    (made : engine.move? move = some (next, events))
    (absent : engine.workers[number]? = none) (found : next.workers[number]? = some worker) :
    number = engine.workers.length ∧ ∃ caller circumstances context,
      move = .step (.caller caller) circumstances ∧
      engine.callers caller = .startDeciding context ∧
      worker = ⟨engine.slot.lastGeneration + 1, context, .fresh, .entering⟩ := by
  have outside : engine.workers.length ≤ number := List.getElem?_eq_none_iff.mp absent
  have inside : number < next.workers.length := (List.getElem?_eq_some_iff.mp found).1
  rcases move?_workers_length made with same | ⟨caller, circumstances, context, rfl,
    standing, _, rfl⟩
  · omega
  · have last : number = engine.workers.length := by
      simp [spawn] at inside
      omega
    subst last
    refine ⟨rfl, caller, circumstances, context, rfl, standing, ?_⟩
    simpa [spawn] using found.symm

/-- What holds of every worker that enters its loop, and is kept by its own steps and
by what others do to it, holds of every worker. -/
theorem Reaches.keeps_workers {invariant : Worker → Prop}
    (fresh : ∀ generation context, invariant ⟨generation, context, .fresh, .entering⟩)
    (advanced : ∀ {engine : Engine} {circumstances : Circumstances} {worker later : Worker},
      invariant worker → worker.Advance engine circumstances later → invariant later)
    (touched : ∀ {worker later : Worker},
      invariant worker → worker.Touched later → invariant later)
    (reached : start.Reaches before finish)
    (holds : ∀ (number : Nat) worker,
      start.workers[number]? = some worker → invariant worker) :
    ∀ (number : Nat) worker, finish.workers[number]? = some worker → invariant worker := by
  induction reached with
  | refl => exact holds
  | @move _ engine _ _ _ _ made inductionHypothesis =>
      intro number later found
      cases present : engine.workers[number]? with
      | none =>
          obtain ⟨_, _, _, _, _, _, rfl⟩ := move?_newcomer made present found
          exact fresh _ _
      | some worker =>
          have kept := inductionHypothesis number worker present
          obtain ⟨after, there, ⟨_, _, advance⟩ | ⟨_, touch⟩⟩ := move?_worker made present
          · cases Option.some.inj (there.symm.trans found)
            exact advanced kept advance
          · cases Option.some.inj (there.symm.trans found)
            exact touched kept touch

/-- An agent for concrete histories.  Every delay it draws is zero. -/
def small : Engine := initial ⟨⟨5, 5⟩, ⟨1000⟩, fun _ => 0⟩

/-- Every wait may end, every block is accepted and every report can be written. -/
def calm : Circumstances := ⟨⟨0, 0⟩, true, some .accepted, none⟩

def steps (actor : Actor) (count : Nat) : List Move :=
  List.replicate count (.step actor calm)

/-- What a move does now, or nothing if it is not possible. -/
def momentOf (engine : Engine) (move : Move) : Moment :=
  match engine.move? move with
  | some (next, events) => ⟨engine, move, events, next⟩
  | none => ⟨engine, move, [], engine⟩

theorem reaches_momentOf (possible : (engine.move? move).isSome = true) :
    engine.Reaches [engine.momentOf move] (engine.momentOf move).after := by
  obtain ⟨result, made⟩ := Option.isSome_iff_exists.mp possible
  simp only [momentOf, made]
  exact reaches_single made

end MiningAgent.Engine
