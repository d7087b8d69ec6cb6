import MiningAgent.Proofs.Run.LastBlock

/-!
# Exact accounts

Between iterations the counters agree with what happened: with the answers of the
broadcaster, with the peer blocks that the agent was told of, and with the ways in which its
iterations ended.
-/

namespace MiningAgent

/-- Whether a caller has been told of a peer block and is about to count it. -/
def Activity.isTold : Activity → Bool
  | .peerCounting _ => true
  | _ => false

/-- Whether a worker that hands over a block has yet to count the iteration for it. -/
def Position.isUnbegun : Position → Bool
  | .waiting _ _ _ => false
  | .confirming _ => false
  | .minting _ => false
  | .offering _ => false
  | _ => true

namespace Engine

/-- A stop sees that the worker of its run has exited. -/
def Moment.joins (moment : Moment) : Bool :=
  match moment.activity? with
  | some (.stopJoining _) => true
  | _ => false

/-- Somebody begins to tell the agent of a peer block. -/
def Moment.tells (moment : Moment) : Bool :=
  match moment.move with
  | .call _ (.peerBlock _) => true
  | _ => false

variable {start finish engine next : Engine} {history : History} {moment : Moment}
  {move : Move} {number caller : Nat} {circumstances : Circumstances} {events : List Event}

/-- The peer blocks counted so far, and the callers that are about to count theirs, make up
all that the agent was told of. -/
structure Told (history : History) (engine : Engine) (counted : Nat) (pending : List Nat) :
    Prop where
  distinct : pending.Nodup
  member : ∀ caller, caller ∈ pending ↔ (engine.callers caller).isTold = true
  calls : counted + pending.length = history.countP Moment.tells
  tally : engine.tally.peerBlocks = UInt64.ofNat counted

theorem record_peerBlocks (activity : Activity) (now : Instant) (tally : Tally) :
    (activity.record now tally).peerBlocks =
      tally.peerBlocks + UInt64.ofNat activity.isTold.toNat := by
  cases activity with
  | peerCounting announcement => rfl
  | startRefusing _ reporting | reporting reporting =>
      cases reporting <;> exact (UInt64.add_zero _).symm
  | retiring retirement => cases retirement <;> exact (UInt64.add_zero _).symm
  | _ => exact (UInt64.add_zero _).symm

theorem record_peerBlocks_worker (position : Position) (now : Instant) (tally : Tally) :
    (position.record now tally).peerBlocks = tally.peerBlocks := by
  cases position with
  | failing reporting | dying reporting => cases reporting <;> rfl
  | retiring retirement fault => cases retirement <;> rfl
  | _ => rfl

theorem stepCaller_untold
    (taken : engine.stepCaller caller circumstances = some (next, events)) :
    (next.callers caller).isTold = false := by
  cases stepCaller_cases taken with
  | _ =>
      rw [setCaller_self]
      rfl

theorem Told.still {counted : Nat} {pending : List Nat} (told : Told history engine counted pending)
    (silent : moment.tells = false)
    (same : ∀ caller, (next.callers caller).isTold = (engine.callers caller).isTold)
    (tally : next.tally.peerBlocks = engine.tally.peerBlocks) :
    Told (history ++ [moment]) next counted pending := by
  refine ⟨told.distinct, ?_, ?_, tally.trans told.tally⟩
  · intro caller
    rw [same]
    exact told.member caller
  · rw [List.countP_append, List.countP_singleton, silent]
    exact told.calls

theorem isTold_setCaller {activity : Activity} (before : (engine.callers caller).isTold = false)
    (after : activity.isTold = false) (other : Nat) :
    ((engine.setCaller caller activity).callers other).isTold =
      (engine.callers other).isTold := by
  rw [setCaller_callers]
  split
  · rename_i own
    rw [own, before, after]
  · rfl

theorem Told.call {counted : Nat} {pending : List Nat} {call : Call}
    (told : Told history engine counted pending) (idle : engine.callers caller = .idle) :
    ∃ pending, Told
      (history ++ [⟨engine, .call caller call, [], engine.setCaller caller call.entry⟩])
      (engine.setCaller caller call.entry) counted pending := by
  have before : (engine.callers caller).isTold = false := by
    rw [idle]
    rfl
  cases call with
  | peerBlock announcement =>
      have fresh : caller ∉ pending := by
        rw [told.member, before]
        simp
      refine ⟨caller :: pending, List.nodup_cons.mpr ⟨fresh, told.distinct⟩, ?_, ?_, told.tally⟩
      · intro other
        rw [List.mem_cons, setCaller_callers]
        by_cases own : other = caller
        · simp [own, Call.entry, Activity.isTold]
        · simp [own, told.member]
      · have calls := told.calls
        rw [List.countP_append, List.countP_singleton, List.length_cons]
        simp only [Moment.tells, if_true]
        omega
  | _ => exact ⟨pending, told.still rfl (isTold_setCaller before rfl) rfl⟩

theorem Told.stepCaller {counted : Nat} {pending : List Nat}
    (told : Told history engine counted pending)
    (taken : engine.stepCaller caller circumstances = some (next, events)) :
    ∃ counted pending, Told
      (history ++ [⟨engine, .step (.caller caller) circumstances, events, next⟩]) next counted
        pending := by
  have tally := congrArg Tally.peerBlocks (stepCaller_tally taken)
  rw [record_peerBlocks] at tally
  have after := stepCaller_untold taken
  cases standing : (engine.callers caller).isTold with
  | false =>
      rw [standing] at tally
      refine ⟨counted, pending, told.still rfl ?_ (tally.trans (UInt64.add_zero _))⟩
      intro other
      by_cases own : other = caller
      · rw [own, after, standing]
      · rw [stepCaller_others taken own]
  | true =>
      have member := (told.member caller).mpr standing
      have length := List.length_erase_of_mem member
      have positive := List.length_pos_of_mem member
      refine ⟨counted + 1, pending.erase caller, told.distinct.erase caller, ?_, ?_, ?_⟩
      · intro other
        rw [told.distinct.mem_erase_iff, told.member]
        by_cases own : other = caller
        · simp [own, after]
        · simp [own, stepCaller_others taken own]
      · have calls := told.calls
        rw [List.countP_append, List.countP_singleton]
        simp only [Moment.tells, Bool.false_eq_true, if_false]
        omega
      · rw [tally, standing, told.tally, UInt64.ofNat_add]
        rfl

theorem Told.kept {counted : Nat} {pending : List Nat} (told : Told history engine counted pending)
    (made : engine.move? move = some (next, events)) :
    ∃ counted pending, Told (history ++ [⟨engine, move, events, next⟩]) next counted pending := by
  cases move?_cases made with
  | call idle => exact ⟨counted, told.call idle⟩
  | @failSpawn number reason context fault standing vacant =>
      have before : (engine.callers number).isTold = false := by
        rw [standing]
        rfl
      exact ⟨counted, pending, told.still rfl (isTold_setCaller before rfl) rfl⟩
  | setReportPath => exact ⟨counted, pending, told.still rfl (fun _ => rfl) rfl⟩
  | caller taken => exact told.stepCaller taken
  | worker taken =>
      obtain ⟨worker, found⟩ := exists_of_stepWorker taken
      refine ⟨counted, pending, told.still rfl ?_ ?_⟩
      · intro caller
        rw [(stepWorker_frame taken).1]
      · rw [(stepWorker_leaves taken found).tally]
        exact record_peerBlocks_worker _ _ _

theorem Reaches.told (reached : start.Reaches history finish)
    (idle : ∀ caller, start.callers caller = .idle) (unheard : start.tally.peerBlocks = 0) :
    ∃ counted pending, Told history finish counted pending := by
  induction reached with
  | refl =>
      refine ⟨0, [], List.nodup_nil, ?_, rfl, unheard⟩
      intro caller
      simp [idle, Activity.isTold]
  | move reached made inductionHypothesis =>
      obtain ⟨counted, pending, told⟩ := inductionHypothesis
      exact told.kept made

/-- A run is charged to a worker or not. -/
def charges (engine : Engine) : Nat := engine.inCharge.isSome.toNat

theorem Tended.stepCaller_charges (tended : engine.Tended)
    (taken : engine.stepCaller caller circumstances = some (next, events)) :
    next.charges + (Moment.joins ⟨engine, .step (.caller caller) circumstances, events, next⟩).toNat +
        engine.workers.length = engine.charges + next.workers.length := by
  have sound := tended.sound
  have lockedLater := sound.locked.stepCaller taken
  have kept := sound.locked.held_kept (fun _ free => inHand_eq_none free) taken
  unfold charges inCharge
  cases stepCaller_cases taken with
  | startDeciding standing vacant =>
      rw [sound.hand_eq standing rfl, hand, lockedLater.held_eq (setCaller_self _ _ _) rfl, vacant]
      simp [Moment.joins, Moment.activity?, standing, Activity.inHand, spawn]
      omega
  | startFilling standing =>
      rw [sound.hand_eq standing rfl, hand, lockedLater.held_eq (setCaller_self _ _ _) rfl]
      simp [Moment.joins, Moment.activity?, standing, Activity.inHand]
  | stopTaking standing =>
      rw [sound.hand_eq standing rfl, hand, lockedLater.held_eq (setCaller_self _ _ _) rfl]
      cases active : engine.slot.active with
      | none => simp [Moment.joins, Moment.activity?, standing, Activity.inHand]
      | some run => simp [Moment.joins, Moment.activity?, standing, Activity.inHand]
  | stopJoining standing gone =>
      have vacant : engine.slot.active = none := sound.vacant caller (by rw [standing]; rfl)
      rw [sound.hand_eq standing rfl, hand, lockedLater.held_eq (setCaller_self _ _ _) rfl]
      simp [Moment.joins, Moment.activity?, standing, Activity.inHand, vacant]
  | retiring standing given => exact (sound.not_retiring standing).elim
  | _ =>
      rw [hand, hand, kept (by rw [setCaller_self, ‹engine.callers caller = _›]; rfl)]
      simp [Moment.joins, Moment.activity?, ‹engine.callers caller = _›, releaseSlot]

theorem Tended.charges_kept (tended : engine.Tended)
    (made : engine.move? move = some (next, events)) :
    next.charges + (Moment.joins ⟨engine, move, events, next⟩).toNat + engine.workers.length =
      engine.charges + next.workers.length := by
  cases move?_cases made with
  | call idle =>
      rw [charges, (tended.sound.call idle).2]
      rfl
  | failSpawn standing vacant =>
      rw [charges, (tended.sound.failSpawn standing).2]
      rfl
  | setReportPath => rfl
  | caller taken => exact tended.stepCaller_charges taken
  | worker taken =>
      obtain ⟨callers, holder, _⟩ := stepWorker_frame taken
      have same : next.charges = engine.charges := by
        simp only [charges, inCharge, hand, held, callers, holder, tended.stepWorker_slot taken]
      have length : next.workers.length = engine.workers.length := by
        rcases move?_workers_length made with same | ⟨_, _, _, own, _⟩
        · exact same
        · cases own
      rw [same, length]
      rfl

/-- Every run is charged to its worker until a stop has seen that worker exit. -/
theorem Reaches.joined (reached : start.Reaches history finish) (tended : start.Tended)
    (none : start.workers = []) (free : start.charges = 0) :
    history.countP Moment.joins + finish.charges = finish.workers.length := by
  induction reached with
  | refl =>
      rw [free, none]
      rfl
  | @move history engine next move events reached made inductionHypothesis =>
      have tendedHere := reached.keeps (fun kept made => Tended.kept kept made) tended
      have step := tendedHere.charges_kept made
      rw [List.countP_append, List.countP_singleton]
      cases joins : Moment.joins ⟨engine, move, events, next⟩ with
      | true =>
          simp only [joins, Bool.toNat_true, if_true] at step ⊢
          omega
      | false =>
          simp only [joins, Bool.toNat_false, Bool.false_eq_true, if_false] at step ⊢
          omega

/-- The runs whose worker has left its loop. -/
def ended (engine : Engine) : Nat := engine.marked Position.isOut

theorem total_eq_length {value : Worker → Nat}
    (all : ∀ (number : Nat) worker, engine.workers[number]? = some worker → value worker = 1) :
    engine.total value = engine.workers.length := by
  have ones : engine.workers.map value = engine.workers.map fun _ => 1 := by
    apply List.map_congr_left
    intro worker member
    obtain ⟨number, found⟩ := List.mem_iff_getElem?.mp member
    exact all number worker found
  rw [total, ones]
  simp

/-- While no stop waits for its worker, a worker has left its loop unless a run is charged to
it. -/
theorem Tended.ended_eq (tended : engine.Tended)
    (unjoined : ∀ caller run, engine.callers caller ≠ .stopJoining run) :
    engine.ended + engine.charges = engine.workers.length := by
  have out (number : Nat) (worker : Worker) (found : engine.workers[number]? = some worker)
      (uncharged : engine.inCharge ≠ some number) : worker.position.isOut = true := by
    by_contra inside
    refine uncharged (tended.inCharge_of_lives ⟨worker, found, ?_⟩)
    intro exited
    rw [exited] at inside
    exact inside rfl
  unfold ended marked charges
  cases charged : engine.inCharge with
  | none =>
      rw [total_eq_length]
      · rfl
      · intro number worker found
        rw [out number worker found (by rw [charged]; simp)]
        rfl
  | some number =>
      have inside := tended.sound.present number charged
      have found : engine.workers[number]? = some engine.workers[number] :=
        List.getElem?_eq_getElem inside
      have working : engine.workers[number].position.isOut = false := by
        rcases tended.attended number _ found with
          ⟨_, _, working⟩ | ⟨caller, run, standing, _⟩ | ⟨_, uncharged⟩
        · cases standing : engine.workers[number].position with
          | leaving | exited =>
              rw [standing] at working
              cases working
          | _ => rfl
        · exact absurd standing (unjoined caller run)
        · exact absurd charged uncharged
      have workers : (engine.moveWorker number .exited).workers = engine.workers.modify number
          fun worker => { worker with position := .exited } := rfl
      have moved := total_of_changed (fun worker => worker.position.isOut.toNat) found workers
      rw [total_eq_length, working, moveWorker_eq, changeWorker_length] at moved
      · exact moved.symm
      · intro other worker there
        by_cases same : number = other
        · subst same
          simp [found] at there
          rw [← there]
          rfl
        · simp [same] at there
          rw [out other worker there (by rw [charged]; simpa using same)]
          rfl

/-- Between two blocks that a worker hands over it has begun another iteration. -/
def OffersOnce (history : History) : Prop :=
  ∀ (before between after : History) (first second : Moment) (number : Nat)
    (block other : Block),
    history = before ++ first :: (between ++ second :: after) →
    first.position? number = some (.offering block) →
    second.position? number = some (.offering other) →
    ∃ moment ∈ between, ∃ task, moment.position? number = some (.counting task)

/-- Out of its iterations a worker comes by taking a stop from its queue, or by losing the
sender of the queue, and only while it waits. -/
def EndsInWait (history : History) : Prop :=
  ∀ moment ∈ history, ∀ (number : Nat) worker later,
    moment.before.workers[number]? = some worker →
    moment.after.workers[number]? = some later →
    worker.position.working = true → later.position.working = false →
    ∃ task confirmed wait, worker.position = .waiting task confirmed wait ∧
      later.position = .waiting task confirmed (.over .stopped)

theorem isUnbegun_advance {worker later : Worker}
    (advance : worker.Advance engine circumstances later)
    (unbegun : worker.position.isUnbegun = true)
    (uncounted : ∀ task, worker.position ≠ .counting task) :
    later.position.isUnbegun = true := by
  cases advance with
  | counting standing => exact absurd standing (uncounted _)
  | entering | reading | drawing | drawing_unrated | broadcasting | broadcasting_rejected
  | crediting | dating | failing | failing_done | retiring | retiring_done | dying | dying_done
  | leaving => rfl
  | _ =>
      rw [‹worker.position = _›] at unbegun
      cases unbegun

/-- The worker has yet to count the iteration for its next block. -/
def Unbegun (number : Nat) (engine : Engine) : Prop :=
  ∃ worker, engine.workers[number]? = some worker ∧ worker.position.isUnbegun = true

theorem Unbegun.kept (unbegun : Unbegun number engine)
    (made : engine.move? move = some (next, events))
    (uncounted : ∀ task,
      Moment.position? ⟨engine, move, events, next⟩ number ≠ some (.counting task)) :
    Unbegun number next := by
  obtain ⟨worker, found, unbegun⟩ := unbegun
  obtain ⟨later, there, ⟨circumstances, own, advance⟩ | ⟨_, touched⟩⟩ := move?_worker made found
  · refine ⟨later, there, isUnbegun_advance advance unbegun ?_⟩
    intro task standing
    apply uncounted task
    rw [← standing]
    exact Moment.position?_of_step own found
  · exact ⟨later, there, by rw [touched.position]; exact unbegun⟩

theorem Reaches.offersOnce (reached : start.Reaches history finish) : OffersOnce history := by
  intro before between after first second number block other same offers again
  subst same
  obtain ⟨_, made, rest⟩ := reached.cut
  obtain ⟨during, _, _⟩ := rest.cut
  obtain ⟨circumstances, worker, own, found, standing⟩ := Moment.exists_of_position? offers
  obtain ⟨_, offering, _, present, stands⟩ := Moment.exists_of_position? again
  by_contra none
  have uncounted : ∀ moment ∈ between, ∀ task,
      moment.position? number ≠ some (.counting task) := by
    intro moment member task counting
    exact none ⟨moment, member, task, counting⟩
  have begins : Unbegun number first.after := by
    obtain ⟨later, there, ⟨_, _, advance⟩ | ⟨others, _⟩⟩ := move?_worker made found
    · refine ⟨later, there, ?_⟩
      cases advance with
      | offering stood => rfl
      | _ => cases standing.symm.trans ‹worker.position = _›
    · exact absurd own (others _)
  obtain ⟨⟨worker, found, unbegun⟩, _⟩ := during.keeps_along
    (fun unbegun made uncounted => Unbegun.kept unbegun made uncounted) begins uncounted
  cases Option.some.inj (found.symm.trans present)
  rw [stands] at unbegun
  cases unbegun

theorem Reaches.endsInWait (reached : start.Reaches history finish) (tended : start.Tended) :
    EndsInWait history := by
  intro moment member number worker later found there working idle
  have every : ∀ moment ∈ history, (fun _ : Moment => True) moment := fun _ _ => trivial
  obtain ⟨_, along⟩ := reached.keeps_along
    (fun kept made _ => Tended.kept kept made) tended every
  obtain ⟨here, made⟩ := along moment member
  have faultless := (here.kept made).faultless number later there
  obtain ⟨after, present, ⟨_, _, advance⟩ | ⟨_, touched⟩⟩ := move?_worker made found
  · cases Option.some.inj (present.symm.trans there)
    cases advance with
    | stopping standing unfinished queued => exact ⟨_, _, _, standing, rfl⟩
    | losing standing patient empty disconnected => exact ⟨_, _, _, standing, rfl⟩
    | drawing_unrated standing unrated => cases faultless
    | retiring standing given queue => cases faultless
    | retiring_done standing => cases faultless
    | dying standing unfinished => cases faultless
    | dying_done standing | leaving standing | stopped standing =>
        rw [standing] at working
        cases working
    | _ => cases idle
  · cases Option.some.inj (present.symm.trans there)
    rw [touched.position, working] at idle
    cases idle

/-! ## The accounts -/

/-- The counters of an agent between two iterations, against its history. -/
structure Accounted (history : History) (finish : Engine) : Prop where
  blocks : finish.tally.blocksFound.toNat = (accepted history).length
  errors : finish.tally.errors.toNat = (rejected history).length
  peers : ∃ pending : List Nat, pending.Nodup ∧
    (∀ caller, caller ∈ pending ↔ (finish.callers caller).isTold = true) ∧
    finish.tally.peerBlocks.toNat + pending.length = history.countP Moment.tells
  lastBlock : finish.tally.lastBlockTime = lastTime (accepted history)
  iterations : finish.tally.iterations.toNat =
    finish.tally.blocksFound.toNat + finish.tally.errors.toNat + interrupted history +
      finish.ended
  interrupts : interrupted history ≤ history.countP Moment.delivers
  stops : (∀ caller run, finish.callers caller ≠ .stopJoining run) →
    finish.ended = history.countP Moment.joins

theorem toNat_ofNat_of_le {number bound : Nat} (le : number ≤ bound) (fewer : bound < 2 ^ 64) :
    (UInt64.ofNat number).toNat = number := by
  rw [UInt64.toNat_ofNat', Nat.mod_eq_of_lt (by omega)]

section Accounts

variable {agent : Agent} {stream : Generator} {path : Option String}

theorem Reaches.accounted (rated : agent.hashrate.perSecond ≠ 0)
    (reached : (created agent stream .initial .zero path).Reaches history finish)
    (fewer : history.length < 2 ^ 64) (resting : finish.Resting) : Accounted history finish := by
  have tended := tended_created agent stream .zero path
  have crediting := reached.balance tended rfl turns_crediting rfl
  have faulting := reached.balance tended rfl turns_faulting rfl
  have ongoing := reached.balance tended rfl turns_ongoing rfl
  have out := reached.balance tended rfl turns_out rfl
  rw [resting.marked rfl rfl rfl rfl, ← length_accepted, Nat.zero_add] at crediting
  rw [resting.marked rfl rfl rfl rfl, ← length_rejected, Nat.zero_add] at faulting
  rw [resting.marked rfl rfl rfl rfl, count_ends, Nat.zero_add] at ongoing
  have never : count history (fun _ _ => false) = 0 := by
    apply List.countP_eq_zero.mpr
    intro moment _
    cases work : moment.work? <;> simp [Moment.works, work]
  have blocks : finish.tally.blocksFound.toNat = (accepted history).length := by
    rw [reached.tally_blocksFound, toNat_ofNat_of_le (count_le_length history) fewer, crediting]
  have errors : finish.tally.errors.toNat = (rejected history).length := by
    rw [reached.tally_errors rated, toNat_ofNat_of_le (count_le_length history) fewer, faulting]
  refine ⟨blocks, errors, ?_, ?_, ?_, ?_, ?_⟩
  · obtain ⟨counted, pending, told⟩ := reached.told (fun _ => rfl) rfl
    have calls := told.calls
    have bound : history.countP Moment.tells ≤ history.length := List.countP_le_length
    refine ⟨pending, told.distinct, told.member, ?_⟩
    rw [told.tally, toNat_ofNat_of_le (by omega) fewer, calls]
  · apply (reached.dated tended rfl rfl).noted
    intro number worker found
    have outside := resting worker (List.mem_of_getElem? found)
    rcases Position.of_isOutside outside with same | same | same | same
    · rw [same]; rfl
    · rw [same]; rfl
    · rw [same]; rfl
    · rw [same]; rfl
  · rw [blocks, errors, reached.tally_iterations, toNat_ofNat_of_le (count_le_length history) fewer,
      ended]
    omega
  · have spent := reached.interrupted_le tended rfl
    omega
  · intro unjoined
    have joined := reached.joined tended rfl rfl
    have left := reached.tended.ended_eq unjoined
    omega

/-- Between iterations the counters agree with the answers of the broadcaster, with the peer
blocks that the agent was told of, and with the ways in which iterations ended.  An iteration
hands over one block at most, and no answer of the broadcaster ends the loop. -/
theorem accounts_exact (rated : agent.hashrate.perSecond ≠ 0)
    (reached : (created agent stream .initial .zero path).Reaches history finish)
    (fewer : history.length < 2 ^ 64) :
    (finish.Resting → Accounted history finish) ∧ OffersOnce history ∧ EndsInWait history := by
  refine ⟨?_, reached.offersOnce, ?_⟩
  · intro resting
    exact reached.accounted rated fewer resting
  · exact reached.endsInWait (tended_created agent stream .zero path)

end Accounts

/-- The broadcaster rejects every block. -/
def fussy : Circumstances := ⟨⟨0, 0⟩, true, some (.rejected (.broadcast "")), none⟩

/-- It is seven, and the broadcaster accepts. -/
def atSeven : Circumstances := ⟨⟨7, 7⟩, true, some .accepted, none⟩

/-- One iteration for each of the four ways to end: its block is accepted, its block is
rejected, a peer block interrupts it, and a stop does. -/
def fourEndings : List Move :=
  .call 0 (.start (.ofWallet "")) :: steps (.caller 0) 7 ++
    List.replicate 13 (.step (.worker 0) atSeven) ++
    List.replicate 13 (.step (.worker 0) fussy) ++ steps (.worker 0) 3 ++
    .call 1 (.peerBlock ⟨3, 1⟩) :: steps (.caller 1) 5 ++ steps (.worker 0) 6 ++
    .call 0 .stop :: steps (.caller 0) 5 ++ steps (.worker 0) 3 ++ steps (.caller 0) 3

theorem accounted_fourEndings :
    (small.record fourEndings).1.length < 2 ^ 64 ∧ (small.record fourEndings).2.Resting ∧
      (small.record fourEndings).2.tally = ⟨1, 4, 1, 1, 0, 7⟩ ∧
      Accounted (small.record fourEndings).1 (small.record fourEndings).2 := by
  have rated : small.agent.hashrate.perSecond ≠ 0 := by decide
  have fewer : (small.record fourEndings).1.length < 2 ^ 64 := by decide
  have resting : (small.record fourEndings).2.Resting := by
    unfold Resting
    decide
  have accounts := accounts_exact rated (reaches_record fourEndings) fewer
  exact ⟨fewer, resting, by decide, accounts.1 resting⟩

end Engine

end MiningAgent
