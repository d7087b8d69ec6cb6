import MiningAgent.Proofs.Run.Accounting

/-!
# What a session draws

An iteration draws its delay and, if it finds a block, the nonce for it right after that.
Nothing else is drawn, so the values can be told from the stream at the start, the
difficulties, and the iterations that found a block.
-/

namespace MiningAgent

/-- One iteration as far as it draws: the difficulty it read, its delay, and the nonce of its
block if it has found one. -/
@[ext]
structure Iteration where
  difficulty : UInt64
  delay : UInt64
  nonce : Option UInt32
deriving DecidableEq, Repr

/-- A value drawn from the stream: the delay of an iteration, or the nonce of its block. -/
inductive Draw
  | delay (difficulty delay : UInt64)
  | nonce (nonce : UInt32)

namespace Iteration

/-- What an iteration depends on besides the stream. -/
def shape (iteration : Iteration) : UInt64 × Bool :=
  (iteration.difficulty, iteration.nonce.isSome)

/-- How many values some iterations have drawn. -/
def draws (iterations : List Iteration) : Nat :=
  (iterations.map fun iteration => 1 + iteration.nonce.isSome.toNat).sum

/-- The nonces of the blocks that some iterations have found. -/
def nonces (iterations : List Iteration) : List UInt32 := iterations.filterMap nonce

/-- The iterations after one more draw.  A nonce belongs to the last of them. -/
def extend (iterations : List Iteration) : Draw → List Iteration
  | .delay difficulty delay => iterations ++ [⟨difficulty, delay, none⟩]
  | .nonce nonce =>
      match iterations.getLast? with
      | some last => iterations.dropLast ++ [{ last with nonce := some nonce }]
      | none => []

/-- The iterations draw what a stream gives, one after the other. -/
structure Follow (agent : Agent) (stream : Generator) (iterations : List Iteration) : Prop where
  delay : ∀ (index : Nat) iteration, iterations[index]? = some iteration →
    Discovery.drawDelay agent.logarithm agent.hashrate.perSecond iteration.difficulty
        (Generator.next^[draws (iterations.take index)] stream) =
      .ok (iteration.delay, Generator.next^[draws (iterations.take index) + 1] stream)
  nonce : ∀ (index : Nat) iteration nonce, iterations[index]? = some iteration →
    iteration.nonce = some nonce →
    Discovery.drawNonce (Generator.next^[draws (iterations.take index) + 1] stream) =
      (nonce, Generator.next^[draws (iterations.take index) + 2] stream)

variable {agent : Agent} {stream : Generator} {iterations : List Iteration}
  {iteration : Iteration}

theorem draws_append (iterations : List Iteration) (iteration : Iteration) :
    draws (iterations ++ [iteration]) =
      draws iterations + 1 + iteration.nonce.isSome.toNat := by
  simp [draws, Nat.add_assoc]

theorem draws_eq (iterations : List Iteration) :
    draws iterations = iterations.length + (nonces iterations).length := by
  induction iterations with
  | nil => rfl
  | cons first rest inductionHypothesis =>
      simp only [draws, nonces, List.map_cons, List.sum_cons, List.length_cons]
        at inductionHypothesis ⊢
      rw [inductionHypothesis]
      cases found : first.nonce with
      | none =>
          rw [List.filterMap_cons_none found]
          simp only [Option.isSome_none, Bool.toNat_false]
          omega
      | some nonce =>
          rw [List.filterMap_cons_some found]
          simp only [Option.isSome_some, Bool.toNat_true, List.length_cons]
          omega

theorem nonces_append (iterations : List Iteration) (iteration : Iteration) :
    nonces (iterations ++ [iteration]) = nonces iterations ++ iteration.nonce.toList := by
  simp [nonces, List.filterMap_eq_flatMap_toList]

/-- The last of some iterations is of its own, the others are what they were. -/
theorem getElem?_append_cases {index : Nat} {last : Iteration}
    (found : (iterations ++ [last])[index]? = some iteration) :
    (iterations[index]? = some iteration ∧
        (iterations ++ [last]).take index = iterations.take index) ∨
      iteration = last ∧ (iterations ++ [last]).take index = iterations := by
  by_cases inside : index < iterations.length
  · left
    rw [List.getElem?_append_left inside] at found
    exact ⟨found, List.take_append_of_le_length (Nat.le_of_lt inside)⟩
  · right
    have bound := (List.getElem?_eq_some_iff.mp found).1
    rw [List.length_append, List.length_singleton] at bound
    have same : index = iterations.length := by omega
    subst same
    simp at found
    exact ⟨found.symm, List.take_left' rfl⟩

theorem follow_nil : Follow agent stream [] where
  delay := by
    intro index iteration found
    cases found
  nonce := by
    intro index iteration nonce found
    cases found

theorem Follow.snoc (follow : Follow agent stream iterations)
    (delay : Discovery.drawDelay agent.logarithm agent.hashrate.perSecond iteration.difficulty
        (Generator.next^[draws iterations] stream) =
      .ok (iteration.delay, Generator.next^[draws iterations + 1] stream))
    (stamped : ∀ nonce, iteration.nonce = some nonce →
      Discovery.drawNonce (Generator.next^[draws iterations + 1] stream) =
        (nonce, Generator.next^[draws iterations + 2] stream)) :
    Follow agent stream (iterations ++ [iteration]) := by
  refine ⟨?_, ?_⟩
  · intro index other found
    rcases getElem?_append_cases found with ⟨old, same⟩ | ⟨rfl, same⟩
    · rw [same]
      exact follow.delay index other old
    · rw [same]
      exact delay
  · intro index other nonce found given
    rcases getElem?_append_cases found with ⟨old, same⟩ | ⟨rfl, same⟩
    · rw [same]
      exact follow.nonce index other nonce old given
    · rw [same]
      exact stamped nonce given

theorem Follow.init (follow : Follow agent stream (iterations ++ [iteration])) :
    Follow agent stream iterations := by
  have kept {index : Nat} {other : Iteration} (found : iterations[index]? = some other) :
      (iterations ++ [iteration])[index]? = some other ∧
        (iterations ++ [iteration]).take index = iterations.take index := by
    have inside := (List.getElem?_eq_some_iff.mp found).1
    rw [List.getElem?_append_left inside]
    exact ⟨found, List.take_append_of_le_length (Nat.le_of_lt inside)⟩
  refine ⟨?_, ?_⟩
  · intro index other found
    obtain ⟨there, same⟩ := kept found
    rw [← same]
    exact follow.delay index other there
  · intro index other nonce found given
    obtain ⟨there, same⟩ := kept found
    rw [← same]
    exact follow.nonce index other nonce there given

theorem Follow.stamp {nonce : UInt32} (follow : Follow agent stream (iterations ++ [iteration]))
    (drawn : Discovery.drawNonce (Generator.next^[draws iterations + 1] stream) =
      (nonce, Generator.next^[draws iterations + 2] stream)) :
    Follow agent stream (iterations ++ [{ iteration with nonce := some nonce }]) := by
  have delay := follow.delay iterations.length iteration (by simp)
  rw [List.take_left' rfl] at delay
  refine Follow.snoc follow.init delay ?_
  intro given same
  cases same
  exact drawn

/-- Two iterations behind the same ones, with the same difficulty, have the same delay, and
the same nonce if both found a block. -/
theorem Follow.agree {first second : Agent} {others : List Iteration} {index : Nat}
    {one other : Iteration} (follow : Follow first stream iterations)
    (again : Follow second stream others) (hashrate : second.hashrate = first.hashrate)
    (logarithm : second.logarithm = first.logarithm)
    (earlier : iterations.take index = others.take index)
    (found : iterations[index]? = some one) (there : others[index]? = some other)
    (difficulty : one.difficulty = other.difficulty) :
    one.delay = other.delay ∧ ∀ nonce another, one.nonce = some nonce →
      other.nonce = some another → nonce = another := by
  have delay := follow.delay index one found
  rw [earlier, difficulty] at delay
  have delayAgain := again.delay index other there
  rw [hashrate, logarithm, delay] at delayAgain
  refine ⟨?_, ?_⟩
  · exact congrArg Prod.fst (Except.ok.inj delayAgain)
  · intro nonce another given givenAgain
    have stamped := follow.nonce index one nonce found given
    rw [earlier, again.nonce index other another there givenAgain] at stamped
    exact (congrArg Prod.fst stamped).symm

/-- Iterations of one shape that follow one stream draw the same. -/
theorem Follow.take_eq {first second : Agent} {others : List Iteration}
    (follow : Follow first stream iterations) (again : Follow second stream others)
    (hashrate : second.hashrate = first.hashrate)
    (logarithm : second.logarithm = first.logarithm) (count : Nat)
    (shapes : (iterations.take count).map shape = (others.take count).map shape) :
    iterations.take count = others.take count := by
  induction count with
  | zero => rfl
  | succ count inductionHypothesis =>
      have earlier := congrArg (List.take count) shapes
      simp only [← List.map_take, List.take_take, Nat.min_eq_left (Nat.le_succ count)] at earlier
      have same := inductionHypothesis earlier
      have last := congrArg (fun shapes => shapes[count]?) shapes
      simp only [List.getElem?_map, List.getElem?_take, Nat.lt_succ_self, if_true] at last
      rw [List.take_add_one, List.take_add_one, same]
      cases found : iterations[count]? with
      | none =>
          rw [found, Option.map_none, eq_comm, Option.map_eq_none_iff] at last
          rw [last]
      | some one =>
          rw [found, Option.map_some, eq_comm, Option.map_eq_some_iff] at last
          obtain ⟨other, there, alike⟩ := last
          obtain ⟨difficulty, announced⟩ := Prod.ext_iff.mp alike
          obtain ⟨delay, nonce⟩ := follow.agree again hashrate logarithm same found there
            difficulty.symm
          have nonces : one.nonce = other.nonce := by
            cases given : one.nonce with
            | none =>
                simp only [shape, given, Option.isSome_none, Option.isSome_eq_false_iff,
                  Option.isNone_iff_eq_none] at announced
                exact announced.symm
            | some value =>
                simp only [shape, given, Option.isSome_some, Option.isSome_iff_exists] at announced
                obtain ⟨another, givenAgain⟩ := announced
                rw [givenAgain, nonce value another given givenAgain]
          rw [there, Iteration.ext difficulty.symm delay nonces]

end Iteration

/-- The task of a worker whose iteration has drawn its delay and no nonce. -/
def Position.task? : Position → Option Task
  | .counting task => some task
  | .waiting task _ _ => some task
  | .confirming task => some task
  | .minting task => some task
  | _ => none

theorem Worker.Advance.task? {engine : Engine} {circumstances : Circumstances}
    {worker later : Worker} (advance : worker.Advance engine circumstances later)
    (undrawn : ∀ seen, worker.position ≠ .drawing seen) {task : Task}
    (given : later.position.task? = some task) : worker.position.task? = some task := by
  cases advance with
  | drawing standing => exact absurd standing (undrawn _)
  | counting | taking | stopping | timingOut | expiring | losing | settling | expired | confirmed
  | confirming | confirming_queued =>
      rw [‹worker.position = _›]
      exact given
  | _ => cases given

/-- The block that a worker is about to hand to the broadcaster. -/
def Position.offered? : Position → Option Block
  | .offering block => some block
  | _ => none

/-- What a worker draws on the way from one position to another. -/
def Position.draw? (source target : Position) : Option Draw :=
  match source, target with
  | .drawing _, .counting task => some (.delay task.seen.difficulty task.delay)
  | .minting _, .offering block => some (.nonce block.nonce)
  | _, _ => none

namespace Engine

/-- What a moment draws from the stream. -/
def Moment.draw? (moment : Moment) : Option Draw :=
  match moment.move with
  | .step (.worker number) _ =>
      match moment.before.workers[number]?, moment.after.workers[number]? with
      | some worker, some later => worker.position.draw? later.position
      | _, _ => none
  | _ => none

/-- The iterations of a history, numbered through all its runs. -/
def iterations (history : History) : List Iteration :=
  (history.filterMap Moment.draw?).foldl Iteration.extend []

/-- The blocks that the workers handed to the broadcaster, in order. -/
def offered (history : History) : List Block :=
  history.filterMap fun moment => moment.work?.bind fun work => work.1.offered?

variable {start finish engine next : Engine} {history : History} {moment : Moment}
  {move : Move} {number caller : Nat} {circumstances : Circumstances} {events : List Event}

theorem iterations_append (history : History) (moment : Moment) :
    iterations (history ++ [moment]) =
      moment.draw?.elim (iterations history) (Iteration.extend (iterations history)) := by
  cases drawn : moment.draw? <;> simp [iterations, drawn]

theorem offered_append (history : History) (moment : Moment) :
    offered (history ++ [moment]) =
      offered history ++ (moment.work?.bind fun work => work.1.offered?).toList := by
  simp [offered, List.filterMap_eq_flatMap_toList]

theorem stepWorker_drawing {worker : Worker} {seen : Announcement}
    (taken : engine.stepWorker number circumstances = some (next, events))
    (found : engine.workers[number]? = some worker) (standing : worker.position = .drawing seen) :
    (∃ delay, Discovery.drawDelay engine.agent.logarithm engine.agent.hashrate.perSecond
        seen.difficulty engine.stream = .ok (delay, engine.stream.next) ∧
      next = ({ engine with stream := engine.stream.next }).moveWorker number
        (.counting ⟨seen, delay⟩)) ∨
      ∃ fault, next = engine.moveWorker number (.retiring (.locking worker.generation) fault) := by
  simp only [stepWorker, found, standing, drawDelay] at taken
  by_cases unrated : engine.agent.hashrate.perSecond = 0 ∨ seen.difficulty = 0
  · right
    rw [Discovery.drawDelay_unrated unrated] at taken
    cases taken
    exact ⟨_, rfl⟩
  · left
    obtain ⟨hashrate, difficulty⟩ := not_or.mp unrated
    rw [Discovery.drawDelay_rated hashrate difficulty] at taken
    cases taken
    exact ⟨_, Discovery.drawDelay_rated hashrate difficulty, rfl⟩

theorem stepWorker_minting {worker : Worker} {task : Task}
    (taken : engine.stepWorker number circumstances = some (next, events))
    (found : engine.workers[number]? = some worker) (standing : worker.position = .minting task) :
    ∃ block, Discovery.drawNonce engine.stream = (block.nonce, engine.stream.next) ∧
      next = ({ engine with stream := engine.stream.next }).moveWorker number
        (.offering block) := by
  simp only [stepWorker, found, standing, mintBlock] at taken
  cases taken
  exact ⟨_, rfl, rfl⟩

end Engine

end MiningAgent
