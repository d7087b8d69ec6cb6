import MiningAgent.Proofs.Run.Generation
import MiningAgent.Proofs.Run.Records
import Mathlib

/-!
# Settlement

The time of a run is owed from the moment it is put in the slot until it is counted.  What
is owed passes from the slot to the stop or the retirement that takes the run, is never in
two places, and whoever has it counts it once.
-/

namespace MiningAgent

/-- The run that a stop has taken and not yet counted. -/
def Activity.owed : Activity → Option Run
  | .stopReleasing run => run
  | .stopSending run => some run
  | .stopJoining run => some run
  | .stopAccounting run => some run
  | _ => none

/-- The run that a caller is about to count. -/
def Activity.settling : Activity → Option Run
  | .stopAccounting run => some run
  | .retiring (.accounting run) => some run
  | _ => none

/-- The run that a worker has given up and not yet counted. -/
def Position.owed : Position → Option Run
  | .retiring (.accounting run) _ => some run
  | _ => none

theorem Activity.holdsLifecycle_of_owed {activity : Activity} {run : Run}
    (owed : activity.owed = some run) : activity.holdsLifecycle = true := by
  unfold Activity.owed at owed
  split at owed
  all_goals first | rfl | cases owed

theorem Position.holdsSlot_of_owed {position : Position} {run : Run}
    (owed : position.owed = some run) : position.holdsSlot = true := by
  unfold Position.owed at owed
  split at owed
  · rfl
  · cases owed

theorem Position.record_miningTime (position : Position) (now : Instant) (tally : Tally) :
    (position.record now tally).miningTime =
      position.owed.elim tally.miningTime fun run =>
        Tally.addSaturating tally.miningTime (run.started.elapsed now) := by
  cases position with
  | failing reporting | dying reporting => cases reporting <;> rfl
  | retiring retirement fault => cases retirement <;> rfl
  | _ => rfl

theorem Activity.record_miningTime (activity : Activity) (now : Instant) (tally : Tally) :
    (activity.record now tally).miningTime =
      activity.settling.elim tally.miningTime fun run =>
        Tally.addSaturating tally.miningTime (run.started.elapsed now) := by
  cases activity with
  | startRefusing _ reporting | reporting reporting => cases reporting <;> rfl
  | retiring retirement => cases retirement <;> rfl
  | _ => rfl

theorem Tally.addSaturating_toNat (total elapsed : UInt64) :
    (addSaturating total elapsed).toNat = min (total.toNat + elapsed.toNat) (2 ^ 64 - 1) := by
  rw [addSaturating, UInt64.toNat_ofNat']
  omega

/-- A worker that makes no step of a retirement neither owes a run nor comes to. -/
theorem Worker.Advance.owed_eq_none {engine : Engine} {circumstances : Circumstances}
    {worker later : Worker} (advance : worker.Advance engine circumstances later)
    (settled : ∀ retirement fault,
      worker.position = .retiring retirement fault → retirement = .done) :
    worker.position.owed = none ∧ later.position.owed = none := by
  cases advance with
  | retiring standing given queue =>
      rw [settled _ _ standing] at given
      simp [Engine.stepRetirement] at given
  | _ =>
      rw [‹worker.position = _›]
      exact ⟨rfl, rfl⟩

namespace Engine

/-- Where a run can be whose time is owed. -/
inductive Place
  | slot
  | caller (number : Nat)
  | worker (number : Nat)
deriving DecidableEq

def owed (engine : Engine) : Place → Option Run
  | .slot => engine.slot.active
  | .caller number => (engine.callers number).owed
  | .worker number => (engine.workers[number]?).bind fun worker => worker.position.owed

/-- Whether a run is still in the slot, or in the hands of the stop or the retirement that
took it out and has not counted its time. -/
def Owes (engine : Engine) (run : Run) : Prop :=
  ∃ place, engine.owed place = some run

/-- The run that an actor's next step counts. -/
def settling (engine : Engine) : Actor → Option Run
  | .caller number => (engine.callers number).settling
  | .worker number => engine.owed (.worker number)

/-- The run that a moment puts in the slot. -/
def Moment.filled? (moment : Moment) : Option Run :=
  match moment.before.slot.active with
  | some _ => none
  | none => moment.after.slot.active

/-- The run whose time a moment counts, and that time. -/
def Moment.settled? (moment : Moment) : Option (Run × UInt64) :=
  match moment.move with
  | .step actor circumstances =>
      (moment.before.settling actor).map fun run =>
        (run, run.started.elapsed circumstances.now)
  | _ => none

/-- The runs of a history, in the order in which they were put in the slot. -/
def started (history : History) : List Run := history.filterMap Moment.filled?

/-- The runs whose time was counted, each time that it was, and the times. -/
def settled (history : History) : List (Run × UInt64) := history.filterMap Moment.settled?

variable {start finish engine next : Engine} {history : History} {moment : Moment}
  {move : Move} {number caller : Nat} {circumstances : Circumstances} {events : List Event}
  {run : Run}

/-- What is owed stays where it is, passes from one place to another, comes to be owed when
a run is put in the slot, or is counted. -/
inductive Ledger (moment : Moment) : Prop
  | keep (unfilled : moment.filled? = none) (unsettled : moment.settled? = none)
      (same : ∀ place, moment.after.owed place = moment.before.owed place)
  | pass (source target : Place) {run : Run}
      (unfilled : moment.filled? = none) (unsettled : moment.settled? = none)
      (owed : moment.before.owed source = some run)
      (moved : ∀ place, moment.after.owed place =
        if place = target then some run
        else if place = source then none else moment.before.owed place)
  | fill (run : Run) (filled : moment.filled? = some run) (unsettled : moment.settled? = none)
      (free : ∀ place, moment.before.owed place = none)
      (moved : ∀ place, moment.after.owed place = if place = .slot then some run else none)
  | settle (place : Place) (elapsed : UInt64) {run : Run}
      (unfilled : moment.filled? = none) (settled : moment.settled? = some (run, elapsed))
      (owed : moment.before.owed place = some run)
      (moved : ∀ other, moment.after.owed other =
        if other = place then none else moment.before.owed other)

theorem filled?_eq_none (kept : moment.after.slot.active = moment.before.slot.active ∨
    moment.after.slot.active = none) : moment.filled? = none := by
  unfold Moment.filled?
  cases active : moment.before.slot.active with
  | some run => rfl
  | none =>
      rcases kept with same | empty
      · exact same.trans active
      · exact empty

/-- A worker owes nothing new as long as it makes no step. -/
theorem owed_worker (made : engine.move? move = some (next, events))
    (other : ∀ circumstances, move ≠ .step (.worker number) circumstances) :
    next.owed (.worker number) = engine.owed (.worker number) := by
  cases present : engine.workers[number]? with
  | none =>
      cases later : next.workers[number]? with
      | none => simp [owed, present, later]
      | some worker =>
          obtain ⟨_, _, _, _, _, _, rfl⟩ := move?_newcomer made present later
          simp [owed, present, later, Position.owed]
  | some worker =>
      obtain ⟨later, there, ⟨_, own, _⟩ | ⟨_, touched⟩⟩ := move?_worker made present
      · exact absurd own (other _)
      · simp [owed, present, there, touched.position]

/-- While a caller stands where both locks are held and the slot is empty, nothing is owed
but by that caller. -/
theorem Sound.owed_of_holder (sound : engine.Sound)
    (lifecycle : (engine.callers caller).holdsLifecycle = true)
    (slot : (engine.callers caller).holdsSlot = true)
    (vacant : engine.slot.active = none) {place : Place} (other : place ≠ .caller caller) :
    engine.owed place = none := by
  cases place with
  | slot => exact vacant
  | caller another =>
      cases owed : (engine.callers another).owed with
      | none => exact owed
      | some run =>
          have holds := Activity.holdsLifecycle_of_owed owed
          exact absurd (congrArg Place.caller (sound.locked.sole lifecycle holds)) other
  | worker number =>
      have holder := (sound.locked.slot (.caller caller)).mpr slot
      cases present : engine.workers[number]? with
      | none => simp [Engine.owed, present]
      | some worker =>
          cases owed : worker.position.owed with
          | none => simp [Engine.owed, present, owed]
          | some run =>
              have holds : engine.HoldsSlot (.worker number) :=
                ⟨worker, present, Position.holdsSlot_of_owed owed⟩
              have mine := (sound.locked.slot (.worker number)).mpr holds
              cases holder.symm.trans mine

/-- A step of a caller moves what is owed at most between the slot and that caller. -/
theorem stepCaller_elsewhere
    (taken : engine.stepCaller caller circumstances = some (next, events)) {place : Place}
    (slot : place ≠ .slot) (other : place ≠ .caller caller) :
    next.owed place = engine.owed place := by
  have made : engine.move? (.step (.caller caller) circumstances) = some (next, events) := taken
  cases place with
  | slot => exact absurd rfl slot
  | worker number => exact owed_worker made (by simp)
  | caller another =>
      have different : another ≠ caller := fun same => other (congrArg Place.caller same)
      rw [owed, owed, stepCaller_others taken different]

theorem Sound.stepCaller_ledger (sound : engine.Sound)
    (taken : engine.stepCaller caller circumstances = some (next, events)) :
    Ledger ⟨engine, .step (.caller caller) circumstances, events, next⟩ := by
  have elsewhere := fun place => @stepCaller_elsewhere engine next caller circumstances events
    taken place
  cases stepCaller_cases taken with
  | @startFilling generation worker standing =>
      have vacant : engine.slot.active = none := sound.vacant caller (by rw [standing]; rfl)
      have own : engine.owed (.caller caller) = none := by
        rw [owed, standing]
        rfl
      have free (place : Place) : engine.owed place = none := by
        by_cases mine : place = .caller caller
        · rw [mine, own]
        · exact sound.owed_of_holder (by rw [standing]; rfl) (by rw [standing]; rfl) vacant mine
      refine .fill ⟨generation, worker, circumstances.now⟩ ?_ ?_ free ?_
      · simp [Moment.filled?, vacant]
      · simp [Moment.settled?, settling, standing, Activity.settling]
      · intro place
        by_cases slot : place = .slot
        · rw [slot, if_pos rfl]
          rfl
        · rw [if_neg slot]
          by_cases mine : place = .caller caller
          · rw [mine, owed, setCaller_self]
            rfl
          · rw [elsewhere place slot mine, free]
  | stopTaking standing =>
      have unsettled : (engine.callers caller).settling = none := by
        rw [standing]
        rfl
      have own : engine.owed (.caller caller) = none := by
        rw [owed, standing]
        rfl
      cases active : engine.slot.active with
      | none =>
          rw [active] at elsewhere
          refine .keep (filled?_eq_none (.inr rfl)) ?_ ?_
          · simp [Moment.settled?, settling, unsettled]
          · intro place
            by_cases slot : place = .slot
            · rw [slot]
              exact active.symm
            · by_cases mine : place = .caller caller
              · rw [mine, own, owed, setCaller_self]
                rfl
              · exact elsewhere place slot mine
      | some run =>
          rw [active] at elsewhere
          have source : engine.owed .slot = some run := active
          have target : Place.slot ≠ .caller caller := by simp
          refine .pass .slot (.caller caller) (filled?_eq_none (.inr rfl)) ?_ source ?_
          · simp [Moment.settled?, settling, unsettled]
          · intro place
            by_cases slot : place = .slot
            · rw [slot, if_neg target, if_pos rfl]
              rfl
            · by_cases mine : place = .caller caller
              · rw [mine, if_pos rfl, owed, setCaller_self]
                rfl
              · rw [if_neg mine, if_neg slot]
                exact elsewhere place slot mine
  | @stopAccounting run standing =>
      have vacant : engine.slot.active = none := sound.vacant caller (by rw [standing]; rfl)
      have own : engine.owed (.caller caller) = some run := by
        rw [owed, standing]
        rfl
      refine .settle (.caller caller) (run.started.elapsed circumstances.now)
        (filled?_eq_none (.inl rfl)) ?_ own ?_
      · simp [Moment.settled?, settling, standing, Activity.settling]
      · intro place
        by_cases mine : place = .caller caller
        · rw [mine, if_pos rfl, owed, setCaller_self]
          rfl
        · rw [if_neg mine]
          by_cases slot : place = .slot
          · rw [slot]
            rfl
          · exact elsewhere place slot mine
  | retiring standing given => exact (sound.not_retiring standing).elim
  | _ =>
      refine .keep (filled?_eq_none (.inl (by simp [spawn, releaseSlot]))) ?_ ?_
      · simp only [Moment.settled?, settling, ‹engine.callers caller = _›]
        rfl
      · intro place
        by_cases slot : place = .slot
        · simp [slot, owed, spawn, releaseSlot]
        · by_cases mine : place = .caller caller
          · rw [mine, owed, owed, setCaller_self, ‹engine.callers caller = _›]
            rfl
          · exact elsewhere place slot mine

/-- A step of a worker moves what is owed at most between the slot and that worker. -/
theorem stepWorker_elsewhere
    (taken : engine.stepWorker number circumstances = some (next, events)) {place : Place}
    (slot : place ≠ .slot) (other : place ≠ .worker number) :
    next.owed place = engine.owed place := by
  have made : engine.move? (.step (.worker number) circumstances) = some (next, events) := taken
  cases place with
  | slot => exact absurd rfl slot
  | caller caller => rw [owed, owed, (stepWorker_frame taken).1]
  | worker another =>
      refine owed_worker made ?_
      intro _ same
      cases same
      exact other rfl

theorem stepWorker_ledger
    (taken : engine.stepWorker number circumstances = some (next, events)) :
    Ledger ⟨engine, .step (.worker number) circumstances, events, next⟩ := by
  have elsewhere := fun place => @stepWorker_elsewhere engine next number circumstances events
    taken place
  obtain ⟨worker, found⟩ := exists_of_stepWorker taken
  obtain ⟨later, advance, there, effect⟩ := stepWorker_cases taken found
  have before : engine.owed (.worker number) = worker.position.owed := by simp [owed, found]
  cases effect with
  | own stream tally change settled =>
      obtain ⟨free, freeLater⟩ := advance.owed_eq_none settled
      refine .keep (filled?_eq_none (.inl rfl)) ?_ ?_
      · simp [Moment.settled?, settling, before, free]
      · intro place
        by_cases slot : place = .slot
        · rw [slot]
          rfl
        · by_cases mine : place = .worker number
          · rw [mine, before, free, owed, there]
            exact freeLater
          · exact elsewhere place slot mine
  | @retiring retirement step fault changed standing given =>
      obtain ⟨mailbox, _, kept⟩ := stepRetirement_worker given found
      have after : (changed.moveWorker number (.retiring step fault)).owed (.worker number) =
          (Position.retiring step fault).owed := by simp [owed, kept]
      rw [standing] at before
      cases stepRetirement_cases given with
      | @claiming run active =>
          have source : engine.owed .slot = some run := active
          have target : Place.slot ≠ .worker number := by simp
          refine .pass .slot (.worker number) (filled?_eq_none (.inr rfl)) ?_ source ?_
          · change (engine.owed (.worker number)).map _ = _
            rw [before]
            rfl
          · intro place
            by_cases slot : place = .slot
            · rw [slot, if_neg target, if_pos rfl]
              rfl
            · by_cases mine : place = .worker number
              · rw [mine, if_pos rfl, after]
                rfl
              · rw [if_neg mine, if_neg slot]
                exact elsewhere place slot mine
      | @accounting run =>
          refine .settle (.worker number) (run.started.elapsed circumstances.now)
            (filled?_eq_none (.inl rfl)) ?_ before ?_
          · change (engine.owed (.worker number)).map _ = _
            rw [before]
            rfl
          · intro place
            by_cases mine : place = .worker number
            · rw [mine, if_pos rfl, after]
              rfl
            · rw [if_neg mine]
              by_cases slot : place = .slot
              · rw [slot]
                rfl
              · exact elsewhere place slot mine
      | locking free | claiming_foreign foreign | unlocking =>
          refine .keep (filled?_eq_none (.inl rfl)) ?_ ?_
          · change (engine.owed (.worker number)).map _ = _
            rw [before]
            rfl
          · intro place
            by_cases slot : place = .slot
            · rw [slot]
              rfl
            · by_cases mine : place = .worker number
              · rw [mine, before, after]
                rfl
              · exact elsewhere place slot mine

theorem owed_setCaller {activity : Activity} (same : activity.owed = (engine.callers caller).owed)
    (place : Place) : (engine.setCaller caller activity).owed place = engine.owed place := by
  cases place with
  | slot => rfl
  | worker number => rfl
  | caller other =>
      rw [owed, owed, setCaller_callers]
      split
      · rename_i own
        rw [own, same]
      · rfl

theorem Sound.move?_ledger (sound : engine.Sound)
    (made : engine.move? move = some (next, events)) :
    Ledger ⟨engine, move, events, next⟩ := by
  cases move?_cases made with
  | @call caller call idle =>
      refine .keep (filled?_eq_none (.inl rfl)) rfl (owed_setCaller ?_)
      rw [idle]
      cases call <;> rfl
  | failSpawn standing vacant =>
      refine .keep (filled?_eq_none (.inl rfl)) rfl (owed_setCaller ?_)
      rw [standing]
      rfl
  | setReportPath =>
      refine .keep (filled?_eq_none (.inl rfl)) rfl ?_
      intro place
      cases place <;> rfl
  | caller taken => exact sound.stepCaller_ledger taken
  | worker taken => exact stepWorker_ledger taken

theorem Sound.ledger (sound : moment.before.Sound) (happens : moment.Happens) :
    Ledger moment := by
  cases happens with
  | made made => exact sound.move?_ledger made
  | @failed number circumstances fault own failed silent =>
      obtain ⟨worker, seen, found, standing, after⟩ := failDraw_cases failed
      have free : moment.before.owed (.worker number) = none := by
        simp [owed, found, standing, Position.owed]
      refine .keep (filled?_eq_none (.inl (by rw [after]; rfl))) ?_ ?_
      · simp [Moment.settled?, own, settling, free]
      · intro place
        rw [after]
        cases place with
        | slot => rfl
        | caller caller => rfl
        | worker other =>
            by_cases same : number = other
            · subst same
              rw [free]
              simp [owed, found, Position.owed]
            · simp [owed, same]

/-! ## Nothing is owed twice -/

/-- All that is owed: nothing, or one run in one place. -/
inductive Owing (engine : Engine) : Option Run → Prop
  | nothing (free : ∀ place, engine.owed place = none) : Owing engine none
  | one (place : Place) {run : Run}
      (only : ∀ other, engine.owed other = if other = place then some run else none) :
      Owing engine (some run)

theorem Owing.owes_iff {due : Option Run} (owing : engine.Owing due) :
    engine.Owes run ↔ due = some run := by
  cases owing with
  | nothing free => simp [Owes, free]
  | one place only =>
      constructor
      · rintro ⟨other, owed⟩
        rw [only] at owed
        split at owed
        · exact owed
        · cases owed
      · intro same
        exact ⟨place, by rw [only, if_pos rfl, same]⟩

/-- What is owed before a moment and what it puts in the slot is what it counts and what is
owed after it. -/
theorem Ledger.balance {due : Option Run} (ledger : Ledger moment)
    (owing : moment.before.Owing due) :
    ∃ dueLater, moment.after.Owing dueLater ∧
      due.toList ++ moment.filled?.toList =
        (moment.settled?.map Prod.fst).toList ++ dueLater.toList := by
  cases ledger with
  | keep unfilled unsettled same =>
      refine ⟨due, ?_, by simp [unfilled, unsettled]⟩
      cases owing with
      | nothing free => exact .nothing fun place => (same place).trans (free place)
      | one place only => exact .one place fun other => (same other).trans (only other)
  | @pass source target run unfilled unsettled owed moved =>
      cases owing with
      | nothing free => cases (free source).symm.trans owed
      | @one place only_run only =>
          rw [only] at owed
          split at owed
          · rename_i here
            cases owed
            refine ⟨some run, .one target ?_, by simp [unfilled, unsettled]⟩
            intro other
            rw [moved]
            by_cases there : other = target
            · rw [if_pos there, if_pos there]
            · rw [if_neg there, if_neg there]
              by_cases left : other = source
              · rw [if_pos left]
              · rw [if_neg left, only, if_neg (here ▸ left)]
          · cases owed
  | fill run filled unsettled free moved =>
      cases owing with
      | nothing _ =>
          refine ⟨some run, .one .slot moved, by simp [filled, unsettled]⟩
      | one place only =>
          have owed := only place
          rw [free, if_pos rfl] at owed
          cases owed
  | @settle source elapsed run unfilled settled owed moved =>
      cases owing with
      | nothing free => cases (free source).symm.trans owed
      | one place only =>
          rw [only] at owed
          split at owed
          · rename_i here
            cases owed
            refine ⟨none, .nothing ?_, by simp [unfilled, settled]⟩
            intro other
            rw [moved]
            by_cases left : other = source
            · rw [if_pos left]
            · rw [if_neg left, only, if_neg (here ▸ left)]
          · cases owed

theorem started_append (history : History) (moment : Moment) :
    started (history ++ [moment]) = started history ++ moment.filled?.toList := by
  cases filled : moment.filled? <;> simp [started, filled]

theorem settled_append (history : History) (moment : Moment) :
    settled (history ++ [moment]) = settled history ++ moment.settled?.toList := by
  cases counted : moment.settled? <;> simp [settled, counted]

/-- The runs put in the slot are those whose time was counted and the one whose time is
owed. -/
theorem Falters.balance (reached : start.Falters history finish) (staffed : start.Staffed)
    (free : ∀ place, start.owed place = none) :
    ∃ due, finish.Owing due ∧
      started history = (settled history).map Prod.fst ++ due.toList := by
  induction reached with
  | refl => exact ⟨none, .nothing free, rfl⟩
  | @next history moment reached happens inductionHypothesis =>
      obtain ⟨due, owing, balance⟩ := inductionHypothesis
      have ledger := (reached.staffed staffed).1.sound.ledger happens
      obtain ⟨dueLater, owingLater, step⟩ := ledger.balance owing
      refine ⟨dueLater, owingLater, ?_⟩
      rw [started_append, settled_append, balance, List.append_assoc, step, List.map_append,
        List.append_assoc]
      cases moment.settled? <;> rfl

/-- A moment leaves the runs as many as they are, or puts the next one in the slot. -/
theorem Launch.runs (launch : Launch moment.before moment.after) (staffed : moment.before.Staffed) :
    (moment.filled? = none ∧ moment.after.runs = moment.before.runs) ∨
      ∃ run, moment.filled? = some run ∧ run.worker = moment.before.runs ∧
        moment.after.runs = moment.before.runs + 1 := by
  cases launch with
  | keep filling settled generation active callers =>
      left
      refine ⟨filled?_eq_none active, ?_⟩
      rw [Engine.runs, Engine.runs, filling, settled]
  | spawn launching before after filling =>
      left
      refine ⟨filled?_eq_none (.inl (by rw [after]; rfl)), ?_⟩
      rw [runs_of_filling filling, runs_of_unfilled before]
  | @fill caller generation worker now standing before after filling =>
      right
      have vacant := (staffed.sound.vacant_of_filling before).1
      have last := (staffed.numbered.filling _ _ _ standing).2
      refine ⟨⟨generation, worker, now⟩, ?_, ?_, ?_⟩
      · simp [Moment.filled?, vacant, after]
      · rw [runs_of_filling before]
      · rw [runs_of_filling before, runs_of_unfilled filling, last, after]
        rfl

/-- The runs put in the slot have the workers in their order. -/
theorem Falters.numbers (reached : start.Falters history finish) (staffed : start.Staffed)
    (unstarted : start.runs = 0) :
    (started history).map Run.worker = List.range finish.runs := by
  induction reached with
  | refl => rw [unstarted]; rfl
  | @next history moment reached happens inductionHypothesis =>
      have staffedHere := (reached.staffed staffed).1
      rw [started_append, List.map_append, inductionHypothesis]
      rcases (staffedHere.sound.launch happens).runs staffedHere with
        ⟨unfilled, same⟩ | ⟨run, filled, worker, more⟩
      · rw [unfilled, same]
        simp
      · rw [filled, more, List.range_succ, ← worker]
        rfl

theorem Moment.Happens.miningTime (happens : moment.Happens) :
    moment.after.tally.miningTime =
      moment.settled?.elim moment.before.tally.miningTime fun settlement =>
        Tally.addSaturating moment.before.tally.miningTime settlement.2 := by
  rw [happens.tally, Moment.recorded, Moment.settled?]
  cases moment.move with
  | step actor circumstances =>
      cases actor with
      | caller number =>
          simp only [record?, Option.getD_some, Activity.record_miningTime, settling]
          cases (moment.before.callers number).settling <;> rfl
      | worker number =>
          cases found : moment.before.workers[number]? with
          | none => simp [record?, settling, owed, found]
          | some worker =>
              simp only [record?, settling, owed, found, Option.map_some, Option.getD_some,
                Option.bind_some, Position.record_miningTime]
              cases worker.position.owed <;> rfl
  | _ => rfl

/-- The mining time is what it was plus every time that was counted, or the largest word. -/
theorem Falters.miningTime (reached : start.Falters history finish) :
    finish.tally.miningTime.toNat =
      min (start.tally.miningTime.toNat +
        ((settled history).map fun settlement => settlement.2.toNat).sum) (2 ^ 64 - 1) := by
  induction reached with
  | refl =>
      have bound := start.tally.miningTime.toNat_lt
      simp only [settled, List.filterMap_nil, List.map_nil, List.sum_nil]
      omega
  | @next history moment reached happens inductionHypothesis =>
      rw [happens.miningTime, settled_append]
      cases moment.settled? with
      | none => simpa using inductionHypothesis
      | some settlement =>
          simp only [Option.elim_some, Tally.addSaturating_toNat, inductionHypothesis,
            Option.toList_some, List.map_append, List.sum_append, List.map_cons, List.map_nil,
            List.sum_singleton]
          omega

/-- What one step of a worker's retirement does to the slot and the counters: it takes the
run of its own generation out, counts that run, or leaves both alone. -/
inductive Moment.Retires (moment : Moment) (worker : Worker) : Prop
  | takes {run : Run} (active : moment.before.slot.active = some run)
      (own : run.generation = worker.generation)
      (slot : moment.after.slot = { moment.before.slot with active := none })
      (tally : moment.after.tally = moment.before.tally)
  | counts (run : Run) (elapsed : UInt64)
      (settled : moment.settled? = some (run, elapsed))
      (own : run.generation = worker.generation)
      (slot : moment.after.slot = moment.before.slot)
      (tally : moment.after.tally = moment.before.tally.addMiningTime elapsed)
  | neither (slot : moment.after.slot = moment.before.slot)
      (tally : moment.after.tally = moment.before.tally)

theorem retires_of_named {worker : Worker} {retirement : Retirement} {fault : Fault}
    (named : worker.Named)
    (taken : engine.stepWorker number circumstances = some (next, events))
    (found : engine.workers[number]? = some worker)
    (standing : worker.position = .retiring retirement fault) :
    Moment.Retires ⟨engine, .step (.worker number) circumstances, events, next⟩ worker := by
  have tally := (stepWorker_leaves taken found).tally
  obtain ⟨_, _, _, effect⟩ := stepWorker_cases taken found
  cases effect with
  | own stream _ change settled =>
      rw [standing, settled _ _ standing] at tally
      exact .neither rfl tally
  | retiring stood given =>
      rw [stood] at tally
      cases stepRetirement_cases given with
      | locking free | claiming_foreign foreign | unlocking => exact .neither rfl tally
      | @claiming run active => exact .takes active (named _ _ stood _ rfl) rfl tally
      | @accounting run =>
          refine .counts run (run.started.elapsed circumstances.now) ?_
            (named _ _ stood _ rfl) rfl tally
          simp [Moment.settled?, settling, owed, found, stood, Position.owed]

theorem Staffed.retires {worker : Worker} {retirement : Retirement} {fault : Fault}
    (staffed : moment.before.Staffed) (happens : moment.Happens)
    (own : moment.move = .step (.worker number) circumstances)
    (found : moment.before.workers[number]? = some worker)
    (standing : worker.position = .retiring retirement fault) : moment.Retires worker := by
  have named := staffed.named number worker found
  cases happens with
  | made made =>
      obtain ⟨before, move, events, after⟩ := moment
      cases own
      exact retires_of_named named made found standing
  | failed stepped failed silent =>
      obtain ⟨drawing, seen, present, stood, _⟩ := failDraw_cases failed
      cases own.symm.trans stepped
      cases Option.some.inj (present.symm.trans found)
      cases stood.symm.trans standing

/-- Whoever has given up its run never finds it in the slot again. -/
theorem Falters.generation_ne {worker : Worker} (reached : start.Falters history finish)
    (staffed : start.Staffed) (fewer : finish.workers.length < 2 ^ 64) (member : moment ∈ history)
    (found : moment.after.workers[number]? = some worker)
    (detached : worker.position.attached = false) (active : finish.slot.active = some run) :
    run.generation ≠ worker.generation := by
  obtain ⟨staffedLater, along⟩ := reached.staffed staffed
  obtain ⟨staffedHere, happens⟩ := along moment member
  obtain ⟨later, there, away⟩ := reached.detached member found detached
  have sound := staffedLater.sound
  have charged := sound.inCharge_of_active active
  have different : run.worker ≠ number := by
    intro same
    have unfilled : finish.held Activity.filling = none := by
      cases filling : finish.held Activity.filling with
      | none => rfl
      | some other => cases (sound.vacant_of_filling filling).1.symm.trans active
    have launched : finish.launched = some number := by
      rw [Engine.launched, unfilled, active, ← same]
      rfl
    obtain ⟨serving, present, serves⟩ := staffedLater.serving number launched
    cases Option.some.inj (present.symm.trans there)
    rw [Position.attached_of_serving serves.serving] at away
    cases away
  have inside := (List.getElem?_eq_some_iff.mp there).1
  have present := sound.present run.worker charged
  rw [staffedLater.numbered.active run active,
    (staffedHere.happens happens).numbered.worker number worker found]
  intro same
  have numbers := congrArg UInt64.toNat same
  rw [UInt64.toNat_ofNat', UInt64.toNat_ofNat', Nat.mod_eq_of_lt (by omega),
    Nat.mod_eq_of_lt (by omega)] at numbers
  omega

/-- The accounts of a history that began with a given mining time.  A run that has left the
slot, and that no stop or retirement is still busy with, has been counted once. -/
structure Settled (history : History) (finish : Engine) (earlier : UInt64) : Prop where
  distinct : (started history).Nodup
  known : ∀ settlement ∈ settled history, settlement.1 ∈ started history
  once : ∀ run ∈ started history, ¬ finish.Owes run →
    ((settled history).map Prod.fst).count run = 1
  pending : ∀ run, finish.Owes run →
    run ∈ started history ∧ ((settled history).map Prod.fst).count run = 0
  time : finish.tally.miningTime.toNat =
    min (earlier.toNat + ((settled history).map fun settlement => settlement.2.toNat).sum)
      (2 ^ 64 - 1)

theorem Falters.settled {earlier : UInt64} (reached : start.Falters history finish)
    (staffed : start.Staffed) (free : ∀ place, start.owed place = none)
    (unstarted : start.runs = 0) (given : start.tally.miningTime = earlier) :
    Settled history finish earlier := by
  obtain ⟨due, owing, balance⟩ := reached.balance staffed free
  have distinct : (started history).Nodup := by
    apply List.Nodup.of_map Run.worker
    rw [reached.numbers staffed unstarted]
    exact List.nodup_range
  have counts (run : Run) : (started history).count run =
      ((Engine.settled history).map Prod.fst).count run + due.toList.count run := by
    rw [balance, List.count_append]
  refine ⟨distinct, ?_, ?_, ?_, ?_⟩
  · intro settlement member
    rw [balance]
    exact List.mem_append_left _ (List.mem_map_of_mem member)
  · intro run member unowed
    have absent : due.toList.count run = 0 := by
      rw [List.count_eq_zero]
      intro pending
      exact unowed (owing.owes_iff.mpr (Option.mem_toList.mp pending))
    have once := List.count_eq_one_of_mem distinct member
    have split := counts run
    omega
  · intro run owes
    have same := owing.owes_iff.mp owes
    have member : run ∈ started history := by
      rw [balance, same]
      simp
    have once := List.count_eq_one_of_mem distinct member
    have split := counts run
    rw [same, Option.toList_some, List.count_singleton_self] at split
    exact ⟨member, by omega⟩
  · rw [← given]
    exact reached.miningTime

/-- Draws may fail at any time.  Still every run is counted once, by the stop or by the
retirement that took it out of the slot; a retirement takes and counts no run but that of its
own generation; and a worker that has given up its run never sees its generation in the slot
again. -/
theorem runs_settled_once {agent : Agent} {stream : Generator} {tracker : Tracker}
    {tally : Tally} {path : Option String}
    (reached : (created agent stream tracker tally path).Falters history finish)
    (fewer : finish.workers.length < 2 ^ 64) :
    Settled history finish tally.miningTime ∧
      (∀ moment ∈ history, ∀ number worker retirement fault circumstances,
        moment.move = .step (.worker number) circumstances →
        moment.before.workers[number]? = some worker →
        worker.position = .retiring retirement fault → moment.Retires worker) ∧
      ∀ moment ∈ history, ∀ (number : Nat) worker,
        moment.after.workers[number]? = some worker → worker.position.attached = false →
        ∀ run, finish.slot.active = some run → run.generation ≠ worker.generation := by
  have staffed := staffed_created agent stream tracker tally path
  refine ⟨?_, ?_, ?_⟩
  · refine reached.settled staffed ?_ rfl rfl
    intro place
    cases place <;> rfl
  · intro moment member number worker retirement fault circumstances own found standing
    obtain ⟨here, happens⟩ := (reached.staffed staffed).2 moment member
    exact here.retires happens own found standing
  · intro moment member number worker found detached run active
    exact reached.generation_ne staffed fewer member found detached active

/-- The step of a worker at which its draw fails. -/
def failing (engine : Engine) (number : Nat) : Moment :=
  ⟨engine, .step (.worker number) calm, [],
    (engine.failDraw number (.invalidRate 0 0)).getD engine⟩

theorem happens_failing (possible : (engine.failDraw number (.invalidRate 0 0)).isSome = true) :
    (engine.failing number).Happens := by
  obtain ⟨next, failed⟩ := Option.isSome_iff_exists.mp possible
  have after : engine.failDraw number (.invalidRate 0 0) = some (engine.failing number).after := by
    rw [failing, failed, Option.getD_some]
  exact .failed rfl after rfl

/-- The first worker has its draw before its start has put the run in the slot. -/
def hastyStart : List Move :=
  .call 0 (.start (.ofWallet "")) :: steps (.caller 0) 4 ++ steps (.worker 0) 2

def hastyFailure : Moment := (small.record hastyStart).2.failing 0

/-- The run of the failed worker ends after nine nanoseconds.  Another follows and is
stopped. -/
def laterRuns : List Move :=
  steps (.caller 0) 3 ++
    List.replicate 8 (.step (.worker 0) ⟨⟨9, 9⟩, true, none, none⟩) ++
    .call 1 (.start (.ofWallet "")) :: steps (.caller 1) 7 ++
    .call 0 .stop :: steps (.caller 0) 5 ++ steps (.worker 1) 7 ++ steps (.caller 0) 3

def hastyHistory : History :=
  (small.record hastyStart).1 ++ [hastyFailure] ++ (hastyFailure.after.record laterRuns).1

theorem settled_hastyHistory :
    (hastyFailure.after.record laterRuns).2.workers.length < 2 ^ 64 ∧
      (settled hastyHistory).map (fun settlement => (settlement.1.generation, settlement.2)) =
        [(1, 9), (2, 0)] ∧
      Settled hastyHistory (hastyFailure.after.record laterRuns).2 0 := by
  have first : small.Falters (small.record hastyStart).1 hastyFailure.before :=
    (reaches_record hastyStart).falters
  have failed : hastyFailure.Happens := happens_failing (by decide)
  have reached := (first.next failed).append (reaches_record laterRuns)
  have fewer : (hastyFailure.after.record laterRuns).2.workers.length < 2 ^ 64 := by decide
  exact ⟨fewer, by decide, (runs_settled_once reached fewer).1⟩

end Engine

end MiningAgent
