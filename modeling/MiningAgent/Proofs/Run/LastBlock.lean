import MiningAgent.Proofs.Run.Endings

/-!
# The time of the last block

The counters name the time of the last block that was accepted, unless its worker is still
on the way to note it.
-/

namespace MiningAgent

/-- The accepted block whose time has not been noted yet. -/
def Position.undated? : Position → Option Block
  | .crediting block => some block
  | .dating block => some block
  | _ => none

namespace Engine

variable {start finish engine next : Engine} {history : History} {moment : Moment}
  {move : Move} {number caller : Nat} {circumstances : Circumstances} {events : List Event}

/-- The time of the last block in a list, zero if there is none. -/
def lastTime (blocks : List Block) : UInt64 := (blocks.getLast?.map Block.timestamp).getD 0

/-- The last block that was accepted has its time noted, unless a worker is about to. -/
structure Dated (history : History) (engine : Engine) : Prop where
  pending : ∀ (number : Nat) worker block, engine.workers[number]? = some worker →
    worker.position.undated? = some block → (accepted history).getLast? = some block
  noted : (∀ (number : Nat) worker, engine.workers[number]? = some worker →
      worker.position.undated? = none) →
    engine.tally.lastBlockTime = lastTime (accepted history)

theorem accepted_append (history : History) (moment : Moment) :
    accepted (history ++ [moment]) = accepted history ++
      (moment.work?.bind fun work => work.1.accepted? work.2).toList := by
  cases taken : (moment.work?.bind fun work => work.1.accepted? work.2) <;>
    simp [accepted, taken]

theorem record_lastBlockTime (position : Position) (now : Instant) (tally : Tally) :
    (position.record now tally).lastBlockTime =
      match position with
      | .dating block => block.timestamp
      | _ => tally.lastBlockTime := by
  cases position with
  | failing reporting | dying reporting => cases reporting <;> rfl
  | retiring retirement fault => cases retirement <;> rfl
  | _ => rfl

/-- What a worker's step has to do with the last block. -/
inductive Dating (circumstances : Circumstances) (source target : Position) : Prop
  | accepts (block : Block) (accepted : source.accepted? circumstances = some block)
      (undated : target.undated? = some block)
  | credits (block : Block) (rest : source.accepted? circumstances = none)
      (standing : source = .crediting block) (undated : target.undated? = some block)
  | dates (block : Block) (rest : source.accepted? circumstances = none)
      (standing : source = .dating block) (dated : target.undated? = none)
  | elsewhere (rest : source.accepted? circumstances = none) (before : source.undated? = none)
      (after : target.undated? = none)

theorem dating_cases {worker later : Worker}
    (advance : worker.Advance engine circumstances later) :
    Dating circumstances worker.position later.position := by
  cases advance with
  | @broadcasting block standing accepted =>
      refine .accepts block ?_ rfl
      simp [standing, accepted, Position.accepted?]
  | broadcasting_rejected standing rejected =>
      refine .elsewhere ?_ (by rw [standing]; rfl) rfl
      simp [standing, rejected, Position.accepted?]
  | @crediting block standing =>
      exact .credits block (by rw [standing]; rfl) standing rfl
  | @dating block standing =>
      exact .dates block (by rw [standing]; rfl) standing rfl
  | _ =>
      rw [‹worker.position = _›]
      exact .elsewhere rfl rfl rfl

theorem Dated.stepWorker {worker later : Worker} (tended : engine.Tended)
    (dated : Dated history engine)
    (taken : engine.stepWorker number circumstances = some (next, events))
    (found : engine.workers[number]? = some worker)
    (there : next.workers[number]? = some later)
    (advance : worker.Advance engine circumstances later) :
    Dated (history ++ [⟨engine, .step (.worker number) circumstances, events, next⟩]) next := by
  have time := congrArg Tally.lastBlockTime (stepWorker_leaves taken found).tally
  rw [record_lastBlockTime] at time
  have own (other : Nat) (present : Worker) (block : Block)
      (here : next.workers[other]? = some present)
      (undated : present.position.undated? = some block) : present = later := by
    by_cases same : other = number
    · rw [same] at here
      exact Option.some.inj (here.symm.trans there)
    · rw [tended.others_exited_after taken same here] at undated
      cases undated
  have blocks : accepted
      (history ++ [⟨engine, .step (.worker number) circumstances, events, next⟩]) =
      accepted history ++ (worker.position.accepted? circumstances).toList := by
    rw [accepted_append, work?_of_found rfl found]
    rfl
  cases dating_cases advance with
  | accepts block accepted undated =>
      refine ⟨?_, ?_⟩
      · intro other present another here fresh
        cases own other present another here fresh
        rw [undated] at fresh
        cases fresh
        simp [blocks, accepted]
      · intro none
        cases (none number later there).symm.trans undated
  | credits block rest standing undated =>
      refine ⟨?_, ?_⟩
      · intro other present another here fresh
        cases own other present another here fresh
        rw [undated] at fresh
        cases fresh
        rw [blocks, rest, Option.toList_none, List.append_nil]
        exact dated.pending number worker block found (by rw [standing]; rfl)
      · intro none
        cases (none number later there).symm.trans undated
  | dates block rest standing noted =>
      refine ⟨?_, ?_⟩
      · intro other present another here fresh
        cases own other present another here fresh
        cases noted.symm.trans fresh
      · intro _
        have last := dated.pending number worker block found (by rw [standing]; rfl)
        rw [time, standing, blocks, rest, Option.toList_none, List.append_nil, lastTime, last]
        rfl
  | elsewhere rest before after =>
      refine ⟨?_, ?_⟩
      · intro other present another here fresh
        cases own other present another here fresh
        cases after.symm.trans fresh
      · intro _
        have unmoved : next.tally.lastBlockTime = engine.tally.lastBlockTime := by
          rw [time]
          split
          · rename_i block standing
            rw [standing] at before
            cases before
          · rfl
        rw [unmoved, blocks, rest, Option.toList_none, List.append_nil]
        apply dated.noted
        intro other present here
        by_cases same : other = number
        · rw [same] at here
          cases Option.some.inj (here.symm.trans found)
          exact before
        · rw [tended.others_exited taken same here]
          rfl

theorem Dated.still (dated : Dated history engine)
    (made : engine.move? move = some (next, events))
    (others : ∀ number circumstances, move ≠ .step (.worker number) circumstances)
    (time : next.tally.lastBlockTime = engine.tally.lastBlockTime) :
    Dated (history ++ [⟨engine, move, events, next⟩]) next := by
  have still : Moment.work? ⟨engine, move, events, next⟩ = none := by
    unfold Moment.work?
    split
    · exact absurd ‹_› (others _ _)
    · rfl
  have blocks : accepted (history ++ [⟨engine, move, events, next⟩]) = accepted history := by
    rw [accepted_append, still]
    exact List.append_nil _
  refine ⟨?_, ?_⟩
  · intro number later block found undated
    rw [blocks]
    cases present : engine.workers[number]? with
    | none =>
        obtain ⟨_, _, _, _, _, _, rfl⟩ := move?_newcomer made present found
        cases undated
    | some worker =>
        obtain ⟨after, there, ⟨_, own, _⟩ | ⟨_, touched⟩⟩ := move?_worker made present
        · exact absurd own (others _ _)
        · cases Option.some.inj (there.symm.trans found)
          rw [touched.position] at undated
          exact dated.pending number worker block present undated
  · intro none
    rw [time, blocks]
    apply dated.noted
    intro number worker present
    obtain ⟨after, there, ⟨_, own, _⟩ | ⟨_, touched⟩⟩ := move?_worker made present
    · exact absurd own (others _ _)
    · rw [← touched.position]
      exact none number after there

theorem Dated.kept (tended : engine.Tended) (dated : Dated history engine)
    (made : engine.move? move = some (next, events)) :
    Dated (history ++ [⟨engine, move, events, next⟩]) next := by
  cases move?_cases made with
  | call idle | failSpawn standing vacant | setReportPath =>
      exact dated.still made (by simp) rfl
  | caller taken =>
      exact dated.still made (by simp) (stepCaller_quiet taken).counters.lastBlockTime
  | worker taken =>
      obtain ⟨worker, found⟩ := exists_of_stepWorker taken
      obtain ⟨later, advance, there, _⟩ := stepWorker_cases taken found
      exact dated.stepWorker tended taken found there advance

theorem Reaches.dated (reached : start.Reaches history finish) (tended : start.Tended)
    (none : start.workers = []) (undated : start.tally.lastBlockTime = 0) :
    Dated history finish := by
  induction reached with
  | refl =>
      refine ⟨?_, fun _ => undated⟩
      intro number worker block found
      simp [none] at found
  | move reached made inductionHypothesis =>
      have tendedHere := reached.keeps (fun kept made => Tended.kept kept made) tended
      exact inductionHypothesis.kept tendedHere made

end Engine

end MiningAgent
