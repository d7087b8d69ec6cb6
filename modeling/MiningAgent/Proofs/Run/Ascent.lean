import MiningAgent.Proofs.Run.Provenance

/-!
# The heights of announced blocks

From an iteration's reading of the tracker to its call of the broadcaster no other call is
made, as no other worker is alive.  So the readings behind two calls are made in the order of
the calls, and what the tracker says only rises.
-/

namespace MiningAgent

/-- A tracker is as it was before, had accepted nothing, or has accepted a greater height. -/
inductive Tracker.Precedes (tracker later : Tracker) : Prop
  | same (equal : later = tracker)
  | unset (empty : tracker.accepted = none)
  | risen {last newest : Announcement} (had : tracker.accepted = some last)
      (has : later.accepted = some newest) (above : last.height < newest.height)

namespace Tracker

variable {tracker middle later : Tracker} {announcement : Announcement}

theorem Precedes.trans (first : tracker.Precedes middle) (second : middle.Precedes later) :
    tracker.Precedes later := by
  cases first with
  | same equal => exact equal ▸ second
  | unset empty => exact .unset empty
  | risen had has above =>
      cases second with
      | same equal => exact .risen had (equal ▸ has) above
      | unset empty => cases empty.symm.trans has
      | risen hadAfter hasAfter aboveAfter =>
          cases Option.some.inj (has.symm.trans hadAfter)
          exact .risen had hasAfter (UInt64.lt_trans above aboveAfter)

theorem precedes_of_accepted (accepted : tracker.judge announcement = .accepted) :
    tracker.Precedes ⟨some announcement⟩ := by
  cases known : tracker.accepted with
  | none => exact .unset known
  | some last =>
      exact .risen known rfl ((judge_eq_accepted_iff.mp accepted).2 last known)

theorem Precedes.height_le (precedes : tracker.Precedes later) :
    tracker.current.height.toNat ≤ later.current.height.toNat := by
  cases precedes with
  | same equal => rw [equal]
  | unset empty => simp [current, empty]
  | risen had has above =>
      simp only [current, had, has, Option.getD_some]
      exact Nat.le_of_lt (UInt64.lt_iff_toNat_lt.mp above)

/-- Two different readings have different heights, unless the first was made before any update
was accepted. -/
theorem Precedes.height_lt (precedes : tracker.Precedes later)
    (different : tracker.current ≠ later.current) :
    tracker.accepted = none ∨ tracker.current.height.toNat < later.current.height.toNat := by
  cases precedes with
  | same equal => exact absurd (by rw [equal]) different
  | unset empty => exact .inl empty
  | risen had has above =>
      right
      simp only [current, had, has, Option.getD_some]
      exact UInt64.lt_iff_toNat_lt.mp above

end Tracker

/-- Whether an iteration has read the tracker and has not yet called the broadcaster. -/
def Position.underway : Position → Bool
  | .drawing _ => true
  | .counting _ => true
  | .waiting _ _ _ => true
  | .confirming _ => true
  | .minting _ => true
  | .offering _ => true
  | _ => false

/-- What an iteration goes by is this reading. -/
def Position.GoesBy (seen : Announcement) : Position → Prop
  | .drawing read => read = seen
  | .counting task => task.seen = seen
  | .waiting task _ _ => task.seen = seen
  | .confirming task => task.seen = seen
  | .minting task => task.seen = seen
  | .offering block =>
      block.difficulty = seen.difficulty ∧ block.height = heightAbove seen.height
  | _ => False

/-- An iteration gets what it goes by from the tracker, and keeps it until it calls the
broadcaster. -/
theorem Worker.Advance.goesBy {engine : Engine} {circumstances : Circumstances}
    {worker later : Worker} (advance : worker.Advance engine circumstances later)
    (underway : later.position.underway = true) :
    (worker.position = .reading ∧ later.position.GoesBy engine.tracker.current) ∨
      (worker.position.underway = true ∧ (∀ block, worker.position ≠ .offering block) ∧
        ∀ seen, worker.position.GoesBy seen → later.position.GoesBy seen) := by
  cases advance with
  | reading standing => exact .inl ⟨standing, rfl⟩
  | minting standing agentId height difficulty =>
      right
      rw [standing]
      refine ⟨rfl, by simp, ?_⟩
      rintro seen rfl
      exact ⟨difficulty, height⟩
  | entering | drawing_unrated | interrupted | stopped | offering | broadcasting
  | broadcasting_rejected | crediting | dating | failing | failing_done | retiring
  | retiring_done | dying | dying_done | leaving => cases underway
  | _ =>
      right
      rw [‹worker.position = _›]
      exact ⟨rfl, by simp, fun _ same => same⟩

/-- The block that an event hands to the broadcaster. -/
def Event.block? : Event → Option Block
  | .offered _ block => some block
  | _ => none

namespace Engine

/-- The blocks of a history in the order of the calls of the broadcaster. -/
def announced (history : History) : List Block :=
  history.flatMap fun moment => moment.events.filterMap Event.block?

/-- The tracker takes over an announcement. -/
def Moment.accepts (moment : Moment) : Bool :=
  match moment.activity? with
  | some (.updating _ announcement) => moment.before.tracker.judge announcement = .accepted
  | _ => false

/-- A worker goes by what it read when no update had been accepted. -/
def ReadUnset (history : History) (number : Nat) : Prop :=
  ∃ early reading late, history = early ++ reading :: late ∧
    reading.position? number = some .reading ∧
    (∀ moment ∈ late, moment.position? number ≠ some .reading) ∧
    ∀ moment ∈ early, moment.accepts = false

/-- A worker under way has read the tracker, and since then nobody has called the
broadcaster. -/
structure Reads (history : History) (number : Nat) (position : Position)
    (early : History) (reading : Moment) (late : History) : Prop where
  split : history = early ++ reading :: late
  reads : reading.position? number = some .reading
  last : ∀ moment ∈ late, moment.position? number ≠ some .reading
  uncalled : ∀ moment ∈ late, ∀ context block, .offered context block ∉ moment.events
  goesBy : position.GoesBy reading.before.tracker.current

variable {start finish engine next : Engine} {history before after between : History}
  {move : Move} {number : Nat} {circumstances : Circumstances} {events : List Event}
  {first second : Moment} {context another : Context} {block other : Block}

theorem move?_precedes (made : engine.move? move = some (next, events)) :
    engine.tracker.Precedes next.tracker := by
  rcases move?_tracker made with same | ⟨announcement, accepted, changed⟩
  · exact .same same
  · rw [changed]
    exact Tracker.precedes_of_accepted accepted

theorem Reaches.precedes (reached : start.Reaches history finish) :
    start.tracker.Precedes finish.tracker := by
  induction reached with
  | refl => exact .same rfl
  | move _ made inductionHypothesis => exact inductionHypothesis.trans (move?_precedes made)

theorem accepted_of_accepts (made : engine.move? move = some (next, events))
    (accepts : Moment.accepts ⟨engine, move, events, next⟩ = true) :
    next.tracker.accepted ≠ none := by
  unfold Moment.accepts at accepts
  split at accepts
  · rename_i reason announcement updates
    obtain ⟨caller, circumstances, rfl, standing⟩ := Moment.exists_of_activity? updates
    have taken : engine.stepCaller caller circumstances = some (next, events) := made
    have accepted : engine.tracker.judge announcement = .accepted := of_decide_eq_true accepts
    simp only [stepCaller, show engine.callers caller = _ from standing, applyUpdate,
      Tracker.update, accepted] at taken
    cases taken
    simp
  · cases accepts

/-- A tracker without an accepted update has never had one. -/
theorem Reaches.unset (reached : start.Reaches history finish)
    (empty : finish.tracker.accepted = none) :
    start.tracker.accepted = none ∧ ∀ moment ∈ history, moment.accepts = false := by
  induction reached with
  | refl => exact ⟨empty, by simp⟩
  | @move history engine next move events reached made inductionHypothesis =>
      have emptyBefore : engine.tracker.accepted = none := by
        cases move?_precedes made with
        | same equal => rw [← equal, empty]
        | unset none => exact none
        | risen had has above => cases empty.symm.trans has
      obtain ⟨first, none⟩ := inductionHypothesis emptyBefore
      have refuses : Moment.accepts ⟨engine, move, events, next⟩ = false := by
        cases accepts : Moment.accepts ⟨engine, move, events, next⟩ with
        | false => rfl
        | true => exact absurd empty (accepted_of_accepts made accepts)
      exact ⟨first, List.forall_mem_append.mpr ⟨none, List.forall_mem_singleton.mpr refuses⟩⟩

/-! ## Readings before calls -/

theorem lives_of_underway {worker : Worker}
    (found : engine.workers[number]? = some worker)
    (underway : worker.position.underway = true) : engine.Lives number := by
  refine ⟨worker, found, ?_⟩
  intro exited
  rw [exited] at underway
  cases underway

/-- While a worker is under way nobody else calls the broadcaster. -/
theorem Tended.caller_of_underway {worker : Worker} (tended : engine.Tended)
    (made : engine.move? move = some (next, events))
    (found : engine.workers[number]? = some worker)
    (underway : worker.position.underway = true) (offers : .offered context block ∈ events) :
    worker.position = .offering block ∧
      ∃ circumstances, move = .step (.worker number) circumstances := by
  obtain ⟨caller, calling, present, _, offering⟩ := move?_offered made offers
  obtain ⟨circumstances, stepping, own, there, stands⟩ := Moment.exists_of_position? offering
  cases Option.some.inj (there.symm.trans present)
  have same := tended.single (lives_of_underway found underway)
    ⟨calling, present, by rw [stands]; simp⟩
  subst same
  cases Option.some.inj (present.symm.trans found)
  exact ⟨stands, circumstances, own⟩

theorem Reads.extend {position later : Position} {early late : History} {reading moment : Moment}
    (reads : Reads history number position early reading late)
    (unread : moment.position? number ≠ some .reading)
    (uncalled : ∀ context block, .offered context block ∉ moment.events)
    (keeps : ∀ seen, position.GoesBy seen → later.GoesBy seen) :
    Reads (history ++ [moment]) number later early reading (late ++ [moment]) where
  split := by simp [reads.split]
  reads := reads.reads
  last := List.forall_mem_append.mpr ⟨reads.last, List.forall_mem_singleton.mpr unread⟩
  uncalled := List.forall_mem_append.mpr ⟨reads.uncalled, List.forall_mem_singleton.mpr uncalled⟩
  goesBy := keeps _ reads.goesBy

/-- What is no member of the late part of a list, nor the item before it, is in the early
part. -/
theorem prior_of_not_mem {α : Type} {one two : α} {start rest early late : List α}
    (split : start ++ one :: rest = early ++ two :: late) (apart : one ≠ two)
    (absent : one ∉ late) : ∃ middle, early = start ++ one :: middle := by
  rcases List.append_eq_append_iff.mp split with ⟨middle, same, tail⟩ | ⟨middle, same, tail⟩
  · cases middle with
    | nil => exact absurd (List.head_eq_of_cons_eq tail) apart
    | cons head middle =>
        obtain ⟨rfl, _⟩ := List.cons_eq_cons.mp tail
        exact ⟨middle, same⟩
  · cases middle with
    | nil => exact absurd (List.head_eq_of_cons_eq tail).symm apart
    | cons head middle =>
        obtain ⟨_, rfl⟩ := List.cons_eq_cons.mp tail
        exact absurd (by simp) absent

/-- Steps from different places are different moments. -/
theorem apart_of_position? {caller reader : Nat}
    (offering : first.position? caller = some (.offering block))
    (reads : second.position? reader = some .reading) : first ≠ second := by
  rintro rfl
  obtain ⟨_, _, own, _⟩ := Moment.exists_of_position? offering
  obtain ⟨_, _, same, _⟩ := Moment.exists_of_position? reads
  cases own.symm.trans same
  cases offering.symm.trans reads

section Session

variable {agent : Agent} {stream : Generator} {tally : Tally} {path : Option String}

theorem Reaches.reads
    (reached : (created agent stream .initial tally path).Reaches history finish) :
    ∀ (number : Nat) worker, finish.workers[number]? = some worker →
      worker.position.underway = true →
      ∃ early reading late, Reads history number worker.position early reading late := by
  induction reached with
  | refl =>
      intro number worker found
      simp [created] at found
  | @move history engine next move events reached made inductionHypothesis =>
      intro number later there underway
      cases found : engine.workers[number]? with
      | none =>
          obtain ⟨_, _, _, _, _, _, rfl⟩ := move?_newcomer made found there
          cases underway
      | some worker =>
          have calls (before : worker.position.underway = true) {context : Context}
              {block : Block} (offers : .offered context block ∈ events) :=
            reached.tended.caller_of_underway made found before offers
          obtain ⟨stepped, present, step⟩ := move?_worker made found
          cases Option.some.inj (present.symm.trans there)
          rcases step with ⟨circumstances, own, advance⟩ | ⟨others, touched⟩
          · have place : Moment.position? ⟨engine, move, events, next⟩ number =
                some worker.position := Moment.position?_of_step own found
            rcases advance.goesBy underway with ⟨standing, goes⟩ | ⟨before, unoffered, keeps⟩
            · refine ⟨history, _, [], rfl, ?_, by simp, by simp, goes⟩
              rw [place, standing]
            · obtain ⟨early, reading, late, reads⟩ :=
                inductionHypothesis number worker found before
              refine ⟨early, reading, _, reads.extend ?_ ?_ keeps⟩
              · rw [place]
                intro standing
                rw [Option.some.inj standing] at before
                cases before
              · intro context block offers
                exact unoffered block (calls before offers).1
          · rw [touched.position] at underway ⊢
            obtain ⟨early, reading, late, reads⟩ :=
              inductionHypothesis number worker found underway
            refine ⟨early, reading, _, reads.extend ?_ ?_ fun _ same => same⟩
            · rw [Moment.position?_of_other others]
              simp
            · intro context block offers
              obtain ⟨_, circumstances, own⟩ := calls underway offers
              exact others circumstances own

/-- Whoever calls the broadcaster has read the tracker for it, and nobody has called since. -/
theorem Reaches.reads_of_offers
    (reached : (created agent stream .initial tally path).Reaches history engine)
    (made : engine.move? move = some (next, events))
    (offers : .offered context block ∈ events) :
    ∃ number early reading late,
      Moment.position? ⟨engine, move, events, next⟩ number = some (.offering block) ∧
      Reads history number (.offering block) early reading late := by
  obtain ⟨number, worker, found, _, offering⟩ := move?_offered made offers
  obtain ⟨_, stepping, _, there, standing⟩ := Moment.exists_of_position? offering
  cases Option.some.inj (there.symm.trans found)
  obtain ⟨early, reading, late, reads⟩ :=
    reached.reads number worker found (by rw [standing]; rfl)
  rw [standing] at reads
  exact ⟨number, early, reading, late, offering, reads⟩

/-- The readings behind two calls are made in the order of the calls. -/
theorem Reaches.ordered
    (reached : (created agent stream .initial tally path).Reaches
      (before ++ first :: (between ++ second :: after)) finish)
    (offers : .offered context block ∈ first.events)
    (again : .offered another other ∈ second.events) :
    ∃ (number : Nat) (early : History) (reading : Moment) (late : History) (reread : Moment),
      first.position? number = some (.offering block) ∧
      Reads before number (.offering block) early reading late ∧
      reading.before.tracker.Precedes reread.before.tracker ∧
      other.difficulty = reread.before.tracker.current.difficulty ∧
      other.height = heightAbove reread.before.tracker.current.height := by
  obtain ⟨toFirst, made, fromFirst⟩ := reached.cut
  obtain ⟨_, madeAgain, _⟩ := fromFirst.cut
  rw [List.append_cons, ← List.append_assoc] at reached
  obtain ⟨toSecond, _, _⟩ := reached.cut
  obtain ⟨number, early, reading, late, offering, reads⟩ :=
    toFirst.reads_of_offers made offers
  obtain ⟨rereader, earlier, reread, since, _, rereads⟩ :=
    toSecond.reads_of_offers madeAgain again
  refine ⟨number, early, reading, late, reread, offering, reads, ?_, rereads.goesBy⟩
  have split := rereads.split
  rw [List.append_assoc, List.singleton_append] at split
  obtain ⟨rest, rfl⟩ := prior_of_not_mem split (apart_of_position? offering rereads.reads)
    (fun called => rereads.uncalled first called context block offers)
  have whole : before ++ [first] ++ between =
      early ++ reading :: ((late ++ first :: rest) ++ reread :: since) := by
    rw [rereads.split, reads.split]
    simp
  rw [whole] at toSecond
  obtain ⟨_, madeReading, fromReading⟩ := toSecond.cut
  obtain ⟨toReread, _, _⟩ := fromReading.cut
  exact (move?_precedes madeReading).trans toReread.precedes

theorem exists_offered (member : block ∈ events.filterMap Event.block?) :
    ∃ context, .offered context block ∈ events := by
  obtain ⟨event, there, gives⟩ := List.mem_filterMap.mp member
  cases event with
  | offered context offered =>
      cases gives
      exact ⟨context, there⟩
  | _ => cases gives

/-- A move calls the broadcaster at most once. -/
theorem offered_unique (made : engine.move? move = some (next, events))
    (offers : .offered context block ∈ events) (again : .offered another other ∈ events) :
    other = block := by
  obtain ⟨number, _, _, _, offering⟩ := move?_offered made offers
  obtain ⟨same, _, _, _, offeringAgain⟩ := move?_offered made again
  obtain ⟨_, _, own, _, _⟩ := Moment.exists_of_position? offering
  obtain ⟨_, _, stepped, _, _⟩ := Moment.exists_of_position? offeringAgain
  cases own.symm.trans stepped
  cases offering.symm.trans offeringAgain
  rfl

theorem heightAbove_le {low high : UInt64} (ordered : low.toNat ≤ high.toNat) :
    heightAbove low ≤ heightAbove high := by
  rw [UInt64.le_iff_toNat_le, heightAbove_toNat low]
  exact heightAbove_mono ordered

theorem heightAbove_lt {low high : UInt64} (ordered : low.toNat < high.toNat) :
    heightAbove low < heightAbove high ∨ heightAbove low = 18446744073709551615 := by
  have first := heightAbove_toNat low
  have second := heightAbove_toNat high
  have bound := high.toNat_lt
  by_cases greatest : heightAbove low = 18446744073709551615
  · exact .inr greatest
  · have below : (heightAbove low).toNat ≠ 18446744073709551615 := by
      intro same
      exact greatest (UInt64.toNat.inj same)
    left
    rw [UInt64.lt_iff_toNat_lt]
    omega

/-- The heights of the blocks of a history never fall. -/
theorem Reaches.pairwise_height
    (reached : (created agent stream .initial tally path).Reaches history finish) :
    (announced history).Pairwise fun block other => block.height ≤ other.height := by
  induction reached with
  | refl => exact .nil
  | @move history engine next move events reached made inductionHypothesis =>
      have grown : announced (history ++ [⟨engine, move, events, next⟩]) =
          announced history ++ events.filterMap Event.block? := by
        simp [announced]
      rw [grown, List.pairwise_append]
      refine ⟨inductionHypothesis, ?_, ?_⟩
      · refine List.pairwise_of_forall_mem_list ?_
        intro block member other there
        obtain ⟨context, offers⟩ := exists_offered member
        obtain ⟨another, again⟩ := exists_offered there
        rw [offered_unique made offers again]
        exact UInt64.le_refl _
      · intro block member other there
        obtain ⟨first, inside, shown⟩ := List.mem_flatMap.mp member
        obtain ⟨context, offers⟩ := exists_offered shown
        obtain ⟨another, again⟩ := exists_offered there
        obtain ⟨before, between, rfl⟩ := List.append_of_mem inside
        have whole := reached.move made
        rw [List.append_assoc, List.cons_append] at whole
        obtain ⟨_, _, _, _, reread, _, reads, precedes, _, height⟩ :=
          Reaches.ordered whole offers again
        rw [reads.goesBy.2, height]
        exact heightAbove_le precedes.height_le

/-- In the order in which the broadcaster is called the heights never fall.  Two blocks of
different difficulties have different heights, unless the first goes by what its worker read
before any update was accepted, or has the greatest height there is. -/
theorem announced_heights_rise
    (reached : (created agent stream .initial tally path).Reaches history finish) :
    ((announced history).map Block.height).Pairwise (· ≤ ·) ∧
      ∀ before first between second after context block another other,
        history = before ++ first :: (between ++ second :: after) →
        .offered context block ∈ first.events → .offered another other ∈ second.events →
        block.difficulty ≠ other.difficulty →
        block.height < other.height ∨ block.height = 18446744073709551615 ∨
          ∃ number, first.position? number = some (.offering block) ∧
            ReadUnset before number := by
  refine ⟨List.pairwise_map.mpr reached.pairwise_height, ?_⟩
  intro before first between second after context block another other split offers again
    different
  subst split
  obtain ⟨number, early, reading, late, reread, offering, reads, precedes, difficulty, height⟩ :=
    reached.ordered offers again
  obtain ⟨stamped, heightBefore⟩ := reads.goesBy
  have apart : reading.before.tracker.current ≠ reread.before.tracker.current := by
    intro same
    rw [stamped, difficulty, same] at different
    exact different rfl
  rcases precedes.height_lt apart with empty | above
  · right
    right
    obtain ⟨toFirst, _, _⟩ := reached.cut
    rw [reads.split] at toFirst
    obtain ⟨toReading, _, _⟩ := toFirst.cut
    exact ⟨number, offering, early, reading, late, reads.split, reads.reads, reads.last,
      (toReading.unset empty).2⟩
  · rw [heightBefore, height]
    rcases heightAbove_lt above with lower | greatest
    · exact .inl lower
    · exact .inr (.inl greatest)

end Session

/-- A worker has announced a block before it hears of any, and is about to announce another
after a peer block and a late notification. -/
def beforeSecondCall : List Move :=
  .call 0 (.start (.ofWallet "")) :: steps (.caller 0) 7 ++ steps (.worker 0) 13 ++
    .call 1 (.peerBlock ⟨7, 3⟩) :: steps (.caller 1) 5 ++
    .call 1 (.difficultyChange ⟨5, 2⟩) :: steps (.caller 1) 1 ++ steps (.worker 0) 14

def secondCall : Moment := (small.record beforeSecondCall).2.momentOf (.step (.worker 0) calm)

/-- The worker of a second run is about to announce after another peer block. -/
def beforeThirdCall : List Move :=
  steps (.worker 0) 4 ++ .call 0 .stop :: steps (.caller 0) 5 ++ steps (.worker 0) 5 ++
    steps (.caller 0) 3 ++ .call 0 (.start (.ofWallet "")) :: steps (.caller 0) 7 ++
    .call 1 (.peerBlock ⟨9, 8⟩) :: steps (.caller 1) 5 ++ steps (.worker 1) 15

def thirdCall : Moment :=
  (secondCall.after.record beforeThirdCall).2.momentOf (.step (.worker 1) calm)

def threeBlocks : History :=
  (small.record beforeSecondCall).1 ++ secondCall ::
    ((secondCall.after.record beforeThirdCall).1 ++ thirdCall :: [])

theorem heights_rise_over_runs :
    ∃ context block another other,
      secondCall.events = [.offered context block] ∧ thirdCall.events = [.offered another other] ∧
      block.difficulty = 7 ∧ other.difficulty = 9 ∧
      ((announced threeBlocks).map Block.height).Pairwise (· ≤ ·) ∧
      (block.height < other.height ∨ block.height = 18446744073709551615 ∨
        ∃ number, secondCall.position? number = some (.offering block) ∧
          ReadUnset (small.record beforeSecondCall).1 number) := by
  have called : (small.record beforeSecondCall).2.Reaches [secondCall] secondCall.after :=
    reaches_momentOf (by decide)
  have calledAgain : (secondCall.after.record beforeThirdCall).2.Reaches [thirdCall]
      thirdCall.after := reaches_momentOf (by decide)
  have reached : small.Reaches threeBlocks thirdCall.after :=
    (reaches_record beforeSecondCall).append
      (called.append ((reaches_record beforeThirdCall).append calledAgain))
  obtain ⟨pairwise, rising⟩ := announced_heights_rise reached
  have shown : ∃ context block, secondCall.events = [.offered context block] ∧
      block.difficulty = 7 := ⟨_, _, rfl, rfl⟩
  have shownAgain : ∃ context block, thirdCall.events = [.offered context block] ∧
      block.difficulty = 9 := ⟨_, _, rfl, rfl⟩
  obtain ⟨context, block, offers, seven⟩ := shown
  obtain ⟨another, other, again, nine⟩ := shownAgain
  have first : .offered context block ∈ secondCall.events := by
    rw [offers]
    exact List.mem_singleton_self _
  have second : .offered another other ∈ thirdCall.events := by
    rw [again]
    exact List.mem_singleton_self _
  have different : block.difficulty ≠ other.difficulty := by
    rw [seven, nine]
    decide
  exact ⟨context, block, another, other, offers, again, seven, nine, pairwise,
    rising (small.record beforeSecondCall).1 secondCall
      (secondCall.after.record beforeThirdCall).1 thirdCall [] context block another other rfl
      first second different⟩

end Engine

end MiningAgent
