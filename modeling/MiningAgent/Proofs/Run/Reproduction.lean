import MiningAgent.Proofs.Run.Draws
import MiningAgent.Proofs.Stream.Congruence

/-!
# Reproducible sessions

Along a whole session, over all its runs, the iterations draw what the stream of its seed
gives.  Two sessions whose iterations read the same difficulties and find blocks in the same
places have the same delays and nonces, whatever else happens around them.
-/

namespace MiningAgent

theorem Generator.ofSeed_eq {seed other : UInt64} (same : seed % 4294967296 = other % 4294967296) :
    Generator.ofSeed seed = Generator.ofSeed other := by
  have congruent := congrArg UInt64.toNat same
  rw [UInt64.toNat_mod, UInt64.toNat_mod] at congruent
  exact (ofSeed_eq_iff seed other).mpr congruent

theorem Worker.Advance.offered? {engine : Engine} {circumstances : Circumstances}
    {worker later : Worker} (advance : worker.Advance engine circumstances later)
    (unminted : ∀ task, worker.position ≠ .minting task) : later.position.offered? = none := by
  cases advance with
  | minting standing => exact absurd standing (unminted _)
  | _ => rfl

namespace Engine

variable {start finish engine next : Engine} {history : History} {moment : Moment}
  {move : Move} {number caller : Nat} {circumstances : Circumstances} {events : List Event}
  {origin : Generator} {α : Type} {value : Position → Option α}

/-- What the workers carry, in order. -/
def carried (engine : Engine) (value : Position → Option α) : List α :=
  engine.workers.filterMap fun worker => value worker.position

theorem carried_of_only {worker : Worker} (found : engine.workers[number]? = some worker)
    (others : ∀ (other : Nat) another, other ≠ number →
      engine.workers[other]? = some another → value another.position = none) :
    engine.carried value = (value worker.position).toList := by
  unfold carried
  generalize engine.workers = workers at found others
  induction workers generalizing number with
  | nil => cases found
  | cons first rest inductionHypothesis =>
      cases number with
      | zero =>
          cases found
          have absent : rest.filterMap (fun worker => value worker.position) = [] := by
            apply List.filterMap_eq_nil_iff.mpr
            intro another member
            obtain ⟨other, there⟩ := List.mem_iff_getElem?.mp member
            exact others (other + 1) another (Nat.succ_ne_zero other) there
          simp only [List.filterMap_cons, absent]
          cases value worker.position <;> rfl
      | succ number =>
          have absent : value first.position = none :=
            others 0 first (Nat.succ_ne_zero number).symm rfl
          simp only [List.filterMap_cons, absent]
          apply inductionHypothesis found
          intro other another different there
          exact others (other + 1) another (by simpa using different) there

/-- Who makes a step is the only one to carry anything. -/
theorem Tended.carried_before {worker : Worker} (tended : engine.Tended)
    (gone : value .exited = none)
    (taken : engine.stepWorker number circumstances = some (next, events))
    (found : engine.workers[number]? = some worker) :
    engine.carried value = (value worker.position).toList := by
  apply carried_of_only found
  intro other another different there
  rw [tended.others_exited taken different there, gone]

theorem Tended.carried_after {later : Worker} (tended : engine.Tended)
    (gone : value .exited = none)
    (taken : engine.stepWorker number circumstances = some (next, events))
    (there : next.workers[number]? = some later) :
    next.carried value = (value later.position).toList := by
  apply carried_of_only there
  intro other another different present
  rw [tended.others_exited_after taken different present, gone]

/-- Nobody else changes what the workers carry. -/
theorem Recast.carried (recast : Recast moment) (still : moment.work? = none)
    (fresh : value .entering = none) :
    moment.after.carried value = moment.before.carried value := by
  unfold Engine.carried
  cases recast with
  | same _ workers => rw [workers]
  | grown _ generation context workers =>
      simp [workers, fresh]
  | @sent _ number worker signal told found workers =>
      have positions : moment.after.workers.map Worker.position =
          moment.before.workers.map Worker.position := by
        apply List.ext_getElem?
        intro index
        rw [workers, List.getElem?_map, List.getElem?_map, List.getElem?_modify]
        cases moment.before.workers[index]? with
        | none => rfl
        | some other =>
            by_cases same : number = index
            · simp [same]
            · simp [same]
      have mapped := congrArg (List.filterMap value) positions
      rwa [List.filterMap_map, List.filterMap_map] at mapped
  | stepped own found advance workers =>
      rw [work?_of_found own found] at still
      cases still

/-- The iterations of a history draw what a stream gives from its origin, and have come as far
as the workers. -/
structure Drawn (origin : Generator) (history : History) (engine : Engine) : Prop where
  stream : engine.stream = Generator.next^[Iteration.draws (iterations history)] origin
  follow : Iteration.Follow engine.agent origin (iterations history)
  begun : (iterations history).length = count history fun position _ => position.isDrawing
  last : ∀ task ∈ engine.carried Position.task?,
    ∃ earlier, iterations history = earlier ++ [⟨task.seen.difficulty, task.delay, none⟩]
  handed : Iteration.nonces (iterations history) =
    (offered history ++ engine.carried Position.offered?).map Block.nonce

theorem Drawn.still (drawn : Drawn origin history engine)
    (idle : moment.draw? = none) (same : next.stream = engine.stream)
    (agent : next.agent = engine.agent)
    (undrawn : moment.works (fun position _ => position.isDrawing) = false)
    (tasks : ∀ task ∈ next.carried Position.task?, task ∈ engine.carried Position.task?)
    (blocks : offered (history ++ [moment]) ++ next.carried Position.offered? =
      offered history ++ engine.carried Position.offered?) :
    Drawn origin (history ++ [moment]) next := by
  have unchanged : iterations (history ++ [moment]) = iterations history := by
    rw [iterations_append, idle]
    rfl
  refine ⟨?_, ?_, ?_, ?_, ?_⟩
  · rw [same, unchanged]
    exact drawn.stream
  · rw [agent, unchanged]
    exact drawn.follow
  · rw [unchanged, count_append, undrawn]
    exact drawn.begun
  · intro task member
    rw [unchanged]
    exact drawn.last task (tasks task member)
  · rw [unchanged, blocks]
    exact drawn.handed

theorem Drawn.stepDrawing {worker : Worker} {seen : Announcement} (tended : engine.Tended)
    (drawn : Drawn origin history engine)
    (taken : engine.stepWorker number circumstances = some (next, events))
    (found : engine.workers[number]? = some worker) (standing : worker.position = .drawing seen) :
    Drawn origin (history ++ [⟨engine, .step (.worker number) circumstances, events, next⟩])
      next := by
  have made : engine.move? (.step (.worker number) circumstances) = some (next, events) := taken
  have work : Moment.work? ⟨engine, .step (.worker number) circumstances, events, next⟩ =
      some (worker.position, circumstances) := work?_of_found rfl found
  rw [standing] at work
  rcases stepWorker_drawing taken found standing with ⟨delay, given, after⟩ | ⟨fault, after⟩
  · have there : next.workers[number]? =
        some { worker with position := .counting ⟨seen, delay⟩ } := by
      simp [after, found]
    have extended : iterations
        (history ++ [⟨engine, .step (.worker number) circumstances, events, next⟩]) =
        iterations history ++ [⟨seen.difficulty, delay, none⟩] := by
      rw [iterations_append]
      simp [Moment.draw?, found, there, standing, Position.draw?, Iteration.extend]
    have ahead : engine.stream.next =
        Generator.next^[Iteration.draws (iterations history) + 1] origin := by
      rw [Function.iterate_succ_apply', ← drawn.stream]
    refine ⟨?_, ?_, ?_, ?_, ?_⟩
    · rw [extended, Iteration.draws_append, after]
      exact ahead
    · rw [extended, after]
      refine drawn.follow.snoc ?_ ?_
      · rw [← ahead, ← drawn.stream]
        exact given
      · intro nonce none
        cases none
    · rw [extended, count_append, works_of_work work, List.length_append, drawn.begun]
      rfl
    · intro task member
      rw [tended.carried_after rfl taken there] at member
      cases List.mem_singleton.mp member
      exact ⟨_, extended⟩
    · rw [extended, Iteration.nonces_append, drawn.handed, offered_append, work,
        tended.carried_before rfl taken found, tended.carried_after rfl taken there, standing]
      simp [Position.offered?]
  · exfalso
    have there : next.workers[number]? =
        some { worker with position := .retiring (.locking worker.generation) fault } := by
      simp [after, found]
    have faultless := (tended.kept made).faultless number _ there
    cases faultless

theorem Drawn.stepMinting {worker : Worker} {task : Task} (tended : engine.Tended)
    (drawn : Drawn origin history engine)
    (taken : engine.stepWorker number circumstances = some (next, events))
    (found : engine.workers[number]? = some worker) (standing : worker.position = .minting task) :
    Drawn origin (history ++ [⟨engine, .step (.worker number) circumstances, events, next⟩])
      next := by
  have work : Moment.work? ⟨engine, .step (.worker number) circumstances, events, next⟩ =
      some (worker.position, circumstances) := work?_of_found rfl found
  rw [standing] at work
  obtain ⟨block, given, after⟩ := stepWorker_minting taken found standing
  have there : next.workers[number]? = some { worker with position := .offering block } := by
    simp [after, found]
  have carries : task ∈ engine.carried Position.task? := by
    rw [tended.carried_before rfl taken found, standing]
    exact List.mem_singleton_self task
  obtain ⟨earlier, last⟩ := drawn.last task carries
  have stamped : iterations
      (history ++ [⟨engine, .step (.worker number) circumstances, events, next⟩]) =
      earlier ++ [⟨task.seen.difficulty, task.delay, some block.nonce⟩] := by
    rw [iterations_append]
    simp [Moment.draw?, found, there, standing, Position.draw?, Iteration.extend, last]
  have behind : engine.stream = Generator.next^[Iteration.draws earlier + 1] origin := by
    rw [drawn.stream, last, Iteration.draws_append]
    rfl
  have ahead : engine.stream.next = Generator.next^[Iteration.draws earlier + 2] origin := by
    rw [Function.iterate_succ_apply', ← behind]
  have follow := drawn.follow
  have begun := drawn.begun
  have handed := drawn.handed
  rw [last] at follow begun handed
  refine ⟨?_, ?_, ?_, ?_, ?_⟩
  · rw [stamped, Iteration.draws_append, after]
    exact ahead
  · rw [stamped, after]
    apply follow.stamp
    rw [← behind, ← ahead]
    exact given
  · rw [stamped, count_append, works_of_work work, ← begun]
    simp [Position.isDrawing]
  · intro other member
    rw [tended.carried_after rfl taken there] at member
    cases member
  · rw [tended.carried_before rfl taken found, standing, Iteration.nonces_append] at handed
    rw [stamped, Iteration.nonces_append, offered_append, work,
      tended.carried_after rfl taken there]
    simpa [Position.offered?] using handed

theorem draw?_eq_none {worker : Worker} (found : engine.workers[number]? = some worker)
    (undrawn : ∀ seen, worker.position ≠ .drawing seen)
    (unminted : ∀ task, worker.position ≠ .minting task) :
    Moment.draw? ⟨engine, .step (.worker number) circumstances, events, next⟩ = none := by
  simp only [Moment.draw?, found]
  cases next.workers[number]? with
  | none => rfl
  | some later =>
      simp only [Position.draw?]
      split
      · exact absurd ‹worker.position = _› (undrawn _)
      · exact absurd ‹worker.position = _› (unminted _)
      · rfl

theorem Drawn.stepWorker (tended : engine.Tended) (drawn : Drawn origin history engine)
    (taken : engine.stepWorker number circumstances = some (next, events)) :
    Drawn origin (history ++ [⟨engine, .step (.worker number) circumstances, events, next⟩])
      next := by
  obtain ⟨worker, found⟩ := exists_of_stepWorker taken
  obtain ⟨later, advance, there, _⟩ := stepWorker_cases taken found
  by_cases drawing : ∃ seen, worker.position = .drawing seen
  · obtain ⟨seen, standing⟩ := drawing
    exact drawn.stepDrawing tended taken found standing
  by_cases minting : ∃ task, worker.position = .minting task
  · obtain ⟨task, standing⟩ := minting
    exact drawn.stepMinting tended taken found standing
  have undrawn : ∀ seen, worker.position ≠ .drawing seen := fun seen same => drawing ⟨seen, same⟩
  have unminted : ∀ task, worker.position ≠ .minting task := fun task same => minting ⟨task, same⟩
  have work : Moment.work? ⟨engine, .step (.worker number) circumstances, events, next⟩ =
      some (worker.position, circumstances) := work?_of_found rfl found
  have stream := (stepWorker_leaves taken found).stream undrawn unminted
  refine drawn.still (draw?_eq_none found undrawn unminted) stream (stepWorker_frame taken).2.2.2
    ?_ ?_ ?_
  · rw [works_of_work work]
    cases standing : worker.position with
    | drawing seen => exact absurd standing (undrawn seen)
    | _ => rfl
  · intro task member
    rw [tended.carried_after rfl taken there, Option.mem_toList] at member
    rw [tended.carried_before rfl taken found, Option.mem_toList]
    exact advance.task? undrawn member
  · rw [offered_append, work, tended.carried_before rfl taken found,
      tended.carried_after rfl taken there, advance.offered? unminted]
    simp

theorem Drawn.kept (tended : engine.Tended) (drawn : Drawn origin history engine)
    (made : engine.move? move = some (next, events)) :
    Drawn origin (history ++ [⟨engine, move, events, next⟩]) next := by
  have recast := tended.recast made
  have agent := move?_agent made
  have quiet (idle : Moment.draw? ⟨engine, move, events, next⟩ = none)
      (still : Moment.work? ⟨engine, move, events, next⟩ = none)
      (same : next.stream = engine.stream) :
      Drawn origin (history ++ [⟨engine, move, events, next⟩]) next := by
    have tasks : next.carried Position.task? = engine.carried Position.task? :=
      recast.carried still rfl
    have blocks : next.carried Position.offered? = engine.carried Position.offered? :=
      recast.carried still rfl
    refine drawn.still idle same agent (works_of_still still) ?_ ?_
    · intro task member
      rwa [tasks] at member
    · rw [offered_append, still, blocks]
      simp
  cases move?_cases made with
  | call free | failSpawn standing vacant | setReportPath => exact quiet rfl rfl rfl
  | caller taken => exact quiet rfl rfl (stepCaller_quiet taken).stream
  | worker taken => exact drawn.stepWorker tended taken

theorem Reaches.drawn (reached : start.Reaches history finish) (tended : start.Tended)
    (none : start.workers = []) (stream : start.stream = origin) :
    Drawn origin history finish := by
  induction reached with
  | refl =>
      refine ⟨stream, Iteration.follow_nil, rfl, ?_, ?_⟩
      · intro task member
        rw [carried, none] at member
        cases member
      · rw [carried, none]
        rfl
  | move reached made inductionHypothesis =>
      have tendedHere := reached.keeps (fun kept made => Tended.kept kept made) tended
      exact inductionHypothesis.kept tendedHere made

theorem turns_counting : Turns Position.isCounting (fun position _ => position.isDrawing)
    (fun position _ => position.isCounting) := by
  intro engine circumstances worker later advance _ faultless
  cases advance with
  | drawing_unrated standing unrated => cases faultless
  | _ =>
      rw [‹worker.position = _›]
      rfl

theorem Resting.carried_offered (resting : finish.Resting) :
    finish.carried Position.offered? = [] := by
  apply List.filterMap_eq_nil_iff.mpr
  intro worker member
  rcases Position.of_isOutside (resting worker member) with same | same | same | same
  · rw [same]; rfl
  · rw [same]; rfl
  · rw [same]; rfl
  · rw [same]; rfl

/-- What a session has drawn since its seed: iteration for iteration a delay and, for a block
that goes to the broadcaster, its nonce. -/
structure Metered (agent : Agent) (history : History) (finish : Engine) : Prop where
  follow : Iteration.Follow agent (.ofSeed agent.identity.agentSeed) (iterations history)
  announced : (offered history).map Block.nonce <+: Iteration.nonces (iterations history)
  counted : finish.Resting → finish.tally.iterations = UInt64.ofNat (iterations history).length
  stream : finish.Resting → finish.stream =
    Generator.next^[(iterations history).length + (offered history).length]
      (.ofSeed agent.identity.agentSeed)
  nonces : finish.Resting →
    (offered history).map Block.nonce = Iteration.nonces (iterations history)

variable {agent first second : Agent} {other : History} {last : Engine}

theorem Reaches.metered (reached : (initial agent).Reaches history finish) :
    Metered agent history finish := by
  have tended := tended_created agent (.ofSeed agent.identity.agentSeed) .zero none
  have drawn : Drawn (.ofSeed agent.identity.agentSeed) history finish :=
    reached.drawn tended rfl rfl
  have nonces (resting : finish.Resting) :
      (offered history).map Block.nonce = Iteration.nonces (iterations history) := by
    rw [drawn.handed, resting.carried_offered, List.append_nil]
  refine ⟨?_, ?_, ?_, ?_, nonces⟩
  · have follow := drawn.follow
    rwa [reached.agent] at follow
  · rw [drawn.handed, List.map_append]
    exact List.prefix_append _ _
  · intro resting
    have counting := reached.balance tended rfl turns_counting rfl
    rw [resting.marked rfl rfl rfl rfl, Nat.zero_add] at counting
    rw [reached.tally_iterations, counting, drawn.begun]
  · intro resting
    rw [drawn.stream, Iteration.draws_eq, ← nonces resting, List.length_map]

/-- Two sessions of one hash rate whose seeds agree in their low 32 bits draw the same, as
far as their iterations read the same difficulties and find blocks in the same places.  Runs,
waits, interrupts, contexts and answers of the broadcaster make no difference. -/
theorem sessions_repeat (hashrate : second.hashrate = first.hashrate)
    (logarithm : second.logarithm = first.logarithm)
    (seeds : second.identity.agentSeed % 4294967296 = first.identity.agentSeed % 4294967296)
    (reached : (initial first).Reaches history finish)
    (again : (initial second).Reaches other last) :
    (∀ count, ((iterations history).take count).map Iteration.shape =
        ((iterations other).take count).map Iteration.shape →
      (iterations history).take count = (iterations other).take count ∧
        ∀ one another, (iterations history)[count]? = some one →
          (iterations other)[count]? = some another → one.difficulty = another.difficulty →
          one.delay = another.delay) ∧
      Metered first history finish ∧ Metered second other last := by
  have metered := reached.metered
  have meteredAgain := again.metered
  have follow := meteredAgain.follow
  rw [Generator.ofSeed_eq seeds] at follow
  refine ⟨?_, metered, meteredAgain⟩
  intro count shapes
  have same := metered.follow.take_eq follow hashrate logarithm count shapes
  refine ⟨same, ?_⟩
  intro one another found there difficulty
  exact (metered.follow.agree follow hashrate logarithm same found there difficulty).1

/-- An agent whose seed is 5 in its low 32 bits, as is that of `namesake`.  The logarithm is
that of a straight line. -/
def slow : Agent := ⟨⟨0, 5⟩, ⟨1000⟩, fun survival => survival - 1⟩

def namesake : Agent := ⟨⟨4294967296, 5⟩, ⟨1000⟩, fun survival => survival - 1⟩

/-- In one run a block is accepted, a peer block interrupts the second iteration, and the
block of the third is rejected. -/
def oneRun : List Move :=
  .call 0 (.start (.ofWallet "")) :: steps (.caller 0) 7 ++ steps (.worker 0) 16 ++
    .call 1 (.peerBlock ⟨3, 1⟩) :: steps (.caller 1) 5 ++ steps (.worker 0) 3 ++
    List.replicate 13 (.step (.worker 0) fussy)

/-- The block of the first iteration is rejected, a stop ends the second, the peer block
comes between the runs, and the block of the third iteration is accepted. -/
def twoRuns : List Move :=
  .call 4 (.start (.ofWallet "another")) :: steps (.caller 4) 7 ++
    List.replicate 14 (.step (.worker 0) fussy) ++ steps (.worker 0) 3 ++
    .call 0 .stop :: steps (.caller 0) 5 ++ steps (.worker 0) 3 ++ steps (.caller 0) 3 ++
    .call 1 (.peerBlock ⟨3, 1⟩) :: steps (.caller 1) 5 ++
    .call 0 (.start (.ofWallet "")) :: steps (.caller 0) 7 ++
    List.replicate 13 (.step (.worker 1) atSeven)

theorem sessions_repeat_for_namesake :
    namesake.identity.agentSeed % 4294967296 = slow.identity.agentSeed % 4294967296 ∧
      (iterations ((initial slow).record oneRun).1).map Iteration.shape =
          [(1, true), (1, false), (3, true)] ∧
      ((initial slow).record oneRun).2.Resting ∧ ((initial namesake).record twoRuns).2.Resting ∧
      (iterations ((initial slow).record oneRun).1).take 3 =
        (iterations ((initial namesake).record twoRuns).1).take 3 ∧
      Metered slow ((initial slow).record oneRun).1 ((initial slow).record oneRun).2 ∧
      Metered namesake ((initial namesake).record twoRuns).1
        ((initial namesake).record twoRuns).2 := by
  have seeds : namesake.identity.agentSeed % 4294967296 = slow.identity.agentSeed % 4294967296 := by
    decide
  have hashrate : namesake.hashrate = slow.hashrate := rfl
  have logarithm : namesake.logarithm = slow.logarithm := rfl
  have repeats := sessions_repeat hashrate logarithm seeds (reaches_record oneRun)
    (reaches_record twoRuns)
  have shapes : ((iterations ((initial slow).record oneRun).1).take 3).map Iteration.shape =
      ((iterations ((initial namesake).record twoRuns).1).take 3).map Iteration.shape := by
    decide
  have resting : ((initial slow).record oneRun).2.Resting := by
    unfold Resting
    decide
  have restingAgain : ((initial namesake).record twoRuns).2.Resting := by
    unfold Resting
    decide
  exact ⟨seeds, by decide, resting, restingAgain, (repeats.1 3 shapes).1, repeats.2⟩

end Engine

end MiningAgent
