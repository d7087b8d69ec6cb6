import MiningAgent.Proofs.Run.Alone
import MiningAgent.Proofs.Run.Freshness
import Mathlib.Data.List.Basic

/-!
# The last steps of a worker

What a worker can still do with a stop in its queue.  Every wait takes signals until it
takes the stop, so no wait expires any more and no further iteration gets past its wait.
-/

namespace MiningAgent

/-- A report is written as soon as all counters are loaded. -/
def Reporting.sane : Reporting → Bool
  | .loading _ loaded => decide (loaded.length < 6)
  | _ => true

def Position.sane : Position → Bool
  | .failing reporting => reporting.sane
  | .dying reporting => reporting.sane
  | _ => true

/-- Every step of handling a mining error brings its end nearer. -/
theorem Engine.stepReporting_remaining (engine : Engine) (circumstances : Circumstances)
    {reporting : Reporting} (sane : reporting.sane = true) (unfinished : reporting ≠ .done) :
    (engine.stepReporting circumstances reporting).1.sane = true ∧
      (engine.stepReporting circumstances reporting).1.remaining < reporting.remaining := by
  cases reporting with
  | counting fault => exact ⟨rfl, by simp [stepReporting, Reporting.remaining]⟩
  | judging fault =>
      simp only [stepReporting]
      split
      · exact ⟨rfl, by simp [Reporting.remaining]⟩
      · exact ⟨rfl, by simp [Reporting.remaining]⟩
  | loading path loaded =>
      have missing : loaded.length < 6 := of_decide_eq_true sane
      have longer := engine.tally.length_loadNext missing
      simp only [stepReporting]
      split
      · refine ⟨rfl, ?_⟩
        simp only [Reporting.remaining]
        omega
      · rename_i incomplete
        have partly := Tally.length_of_ofCounters? incomplete
        refine ⟨decide_eq_true (by omega), ?_⟩
        simp only [Reporting.remaining]
        omega
  | writing path tally =>
      simp only [stepReporting]
      split
      · exact ⟨rfl, by simp [Reporting.remaining]⟩
      · exact ⟨rfl, by simp [Reporting.remaining]⟩
  | done => exact absurd rfl unfinished

theorem Engine.stepRetirement_remaining {engine changed : Engine} {actor : Actor}
    {circumstances : Circumstances} {retirement later : Retirement}
    (given : engine.stepRetirement actor circumstances retirement = some (later, changed)) :
    later.remaining < retirement.remaining := by
  cases Engine.stepRetirement_cases given with
  | _ => simp [Retirement.remaining]

/-- Whether a worker comes to a draw before its next wait. -/
def Position.draws : Position → Bool
  | .waiting _ _ (.over (.interrupted _)) => true
  | .waiting _ _ _ => false
  | .counting _ => false
  | .confirming _ => false
  | .retiring _ _ => false
  | .dying _ => false
  | .leaving => false
  | .exited => false
  | _ => true

/-- Whether a worker comes to count an iteration before its next wait. -/
def Position.counts : Position → Bool
  | .counting _ => true
  | position => position.draws

def Position.isOffering : Position → Bool
  | .offering _ => true
  | _ => false

def Position.isDrawing : Position → Bool
  | .drawing _ => true
  | _ => false

def Position.isCounting : Position → Bool
  | .counting _ => true
  | _ => false

/-- A bound on the steps of a worker whose wait takes only a stop. -/
def Position.distance : Position → Nat
  | .exited => 0
  | .leaving => 1
  | .waiting _ _ (.over .stopped) => 2
  | .waiting _ _ (.over .expired) => 5
  | .waiting _ _ (.over (.interrupted _)) => 20
  | .waiting _ _ _ => 3
  | .counting _ => 4
  | .confirming _ => 4
  | .dying reporting => 2 + reporting.remaining
  | .retiring retirement _ => 13 + retirement.remaining
  | .drawing _ => 18
  | .reading => 19
  | .entering => 20
  | .dating _ => 20
  | .crediting _ => 21
  | .failing reporting => 20 + reporting.remaining
  | .broadcasting _ => 31
  | .offering _ => 32
  | .minting _ => 33

namespace Worker

/-- The signals that a worker takes before the first stop in its queue. -/
def ahead (worker : Worker) : Nat :=
  if worker.position.working then worker.mailbox.queue.idxOf Signal.stop else 0

/-- A bound on the steps of a worker with a stop in its queue. -/
def stepsLeft (worker : Worker) : Nat := worker.position.distance + worker.ahead

/-- A worker that is on its way out, or has a stop in its queue. -/
structure Doomed (worker : Worker) : Prop where
  coherent : worker.Coherent
  sane : worker.position.sane = true
  asked : worker.position.working = true → Signal.stop ∈ worker.mailbox.queue

end Worker

section Advance

variable {engine : Engine} {circumstances : Circumstances} {worker later : Worker}

theorem Worker.Doomed.queue_ne_nil (doomed : worker.Doomed)
    (working : worker.position.working = true) : worker.mailbox.queue ≠ [] :=
  List.ne_nil_of_mem (doomed.asked working)

/-- A worker whose wait is not over is at work. -/
theorem Worker.working_of_waiting {task : Task} {confirmed : Bool} {wait : Wait}
    (standing : worker.position = .waiting task confirmed wait)
    (unfinished : ∀ outcome, wait ≠ .over outcome) : worker.position.working = true := by
  rw [standing]
  cases wait with
  | listening | timedOut | draining last => rfl
  | _ => exact absurd rfl (unfinished _)

theorem Worker.distance_of_waiting {task : Task} {confirmed : Bool} {wait : Wait}
    (standing : worker.position = .waiting task confirmed wait)
    (unfinished : ∀ outcome, wait ≠ .over outcome) : worker.position.distance = 3 := by
  rw [standing]
  cases wait with
  | listening | timedOut | draining last => rfl
  | _ => exact absurd rfl (unfinished _)

theorem Worker.Advance.sane (advance : worker.Advance engine circumstances later)
    (sane : worker.position.sane = true) : later.position.sane = true := by
  cases advance with
  | failing standing unfinished | dying standing unfinished =>
      rw [standing] at sane
      exact (engine.stepReporting_remaining circumstances sane unfinished).1
  | _ => rfl

/-- A stop leaves the queue only by ending the wait that takes it. -/
theorem Worker.Advance.asked (advance : worker.Advance engine circumstances later)
    (doomed : worker.Doomed) (working : later.position.working = true) :
    Signal.stop ∈ later.mailbox.queue := by
  cases advance with
  | taking standing unfinished queued =>
      have member := doomed.asked (working_of_waiting standing unfinished)
      rw [queued] at member
      rcases List.mem_cons.mp member with same | inside
      · cases same
      · exact inside
  | stopping standing unfinished queued => cases working
  | stopped standing => cases working
  | drawing_unrated standing unrated => cases working
  | losing standing patient empty disconnected => cases working
  | retiring standing given queue => cases working
  | retiring_done standing | dying standing unfinished => cases working
  | dying_done standing | leaving standing => cases working
  | _ =>
      refine doomed.asked ?_
      rw [‹worker.position = _›]
      rfl

theorem Worker.Advance.doomed (advance : worker.Advance engine circumstances later)
    (doomed : worker.Doomed) : later.Doomed :=
  ⟨advance.coherent doomed.coherent, advance.sane doomed.sane, advance.asked doomed⟩

theorem Worker.Touched.doomed (touched : worker.Touched later) (doomed : worker.Doomed) :
    later.Doomed := by
  refine ⟨touched.coherent doomed.coherent, ?_, ?_⟩
  · rw [touched.position]
    exact doomed.sane
  · intro working
    rw [touched.position] at working
    obtain ⟨sent, appended⟩ := touched.queue
    rw [appended]
    exact List.mem_append_left sent (doomed.asked working)

/-- With a stop in the queue no wait comes to the end of its delay. -/
theorem Worker.Advance.unexpired {task : Task} {confirmed : Bool}
    (advance : worker.Advance engine circumstances later) (doomed : worker.Doomed)
    (standing : worker.position = .waiting task confirmed .timedOut) (other : Task)
    (again : Bool) : later.position ≠ .waiting other again (.over .expired) := by
  intro expired
  cases advance with
  | taking stands unfinished queued => cases expired
  | stopping stands unfinished queued => cases expired
  | expiring stands empty connected =>
      exact absurd empty (doomed.queue_ne_nil (by rw [standing]; rfl))
  | losing stands patient empty disconnected => cases expired
  | _ => cases standing.symm.trans ‹worker.position = _›

theorem Worker.Advance.offers_left (advance : worker.Advance engine circumstances later)
    (doomed : worker.Doomed) :
    later.position.announces.toNat + worker.position.isOffering.toNat ≤
      worker.position.announces.toNat := by
  cases advance with
  | confirming standing empty =>
      exact absurd empty (doomed.queue_ne_nil (by rw [standing]; rfl))
  | confirmed standing => exact absurd standing (doomed.coherent.expired _)
  | minting standing agentId height difficulty =>
      rw [standing]
      exact Nat.le_refl _
  | offering standing =>
      rw [standing]
      exact Nat.le_refl _
  | _ =>
      rw [‹worker.position = _›]
      exact Nat.zero_le _

theorem Worker.Advance.draws_left (advance : worker.Advance engine circumstances later)
    (doomed : worker.Doomed) :
    later.position.draws.toNat + worker.position.isDrawing.toNat ≤
      worker.position.draws.toNat := by
  cases advance with
  | confirming standing empty =>
      exact absurd empty (doomed.queue_ne_nil (by rw [standing]; rfl))
  | settling standing empty =>
      exact absurd empty (doomed.queue_ne_nil (by rw [standing]; rfl))
  | confirmed standing => exact absurd standing (doomed.coherent.expired _)
  | _ =>
      rw [‹worker.position = _›]
      first | exact Nat.zero_le _ | exact Nat.le_refl _

theorem Worker.Advance.isCounting (advance : worker.Advance engine circumstances later) :
    later.position.isCounting.toNat ≤ worker.position.isDrawing.toNat := by
  cases advance with
  | drawing standing =>
      rw [standing]
      exact Nat.le_refl _
  | _ => exact Nat.zero_le _

theorem Position.counts_toNat (position : Position) :
    position.counts.toNat = position.draws.toNat + position.isCounting.toNat := by
  cases position <;> rfl

/-- Iterations are counted as they are drawn. -/
theorem Worker.Advance.counts_left (advance : worker.Advance engine circumstances later)
    (doomed : worker.Doomed) :
    later.position.counts.toNat + worker.position.isCounting.toNat ≤
      worker.position.counts.toNat := by
  have draws := advance.draws_left doomed
  have drawn := advance.isCounting
  rw [Position.counts_toNat, Position.counts_toNat]
  omega

/-- A step that leaves the queue alone shortens the way to the exit if it brings the
position nearer. -/
theorem Worker.stepsLeft_lt (queue : later.mailbox.queue = worker.mailbox.queue)
    (onward : later.position.working = true → worker.position.working = true)
    (nearer : later.position.distance < worker.position.distance) :
    later.stepsLeft < worker.stepsLeft := by
  have waiting : later.ahead ≤ worker.ahead := by
    unfold ahead
    split
    · rename_i working
      exact Nat.le_of_eq (by rw [onward working, queue, if_pos rfl])
    · exact Nat.zero_le _
  unfold stepsLeft
  omega

theorem Worker.Advance.stepsLeft (advance : worker.Advance engine circumstances later)
    (doomed : worker.Doomed) : later.stepsLeft < worker.stepsLeft := by
  have sane := doomed.sane
  cases advance with
  | taking standing unfinished queued =>
      rename_i task confirmed wait reason rest
      have behind : (Signal.interrupt reason :: rest).idxOf Signal.stop =
          rest.idxOf Signal.stop + 1 := List.idxOf_cons_ne rest (by simp)
      unfold stepsLeft ahead
      rw [working_of_waiting standing unfinished, distance_of_waiting standing unfinished,
        queued, if_pos rfl, behind]
      exact Nat.lt_succ_self (3 + rest.idxOf Signal.stop)
  | stopping standing unfinished queued =>
      rename_i task confirmed wait rest
      unfold stepsLeft ahead
      rw [working_of_waiting standing unfinished, distance_of_waiting standing unfinished,
        queued, if_pos rfl]
      exact Nat.lt_add_right _ (Nat.lt_succ_self 2)
  | timingOut standing empty connected | expiring standing empty connected =>
      exact absurd empty (doomed.queue_ne_nil (by rw [standing]; rfl))
  | confirming standing empty =>
      exact absurd empty (doomed.queue_ne_nil (by rw [standing]; rfl))
  | settling standing empty =>
      exact absurd empty (doomed.queue_ne_nil (by rw [standing]; rfl))
  | losing standing patient empty disconnected =>
      refine absurd empty (doomed.queue_ne_nil ?_)
      rw [standing]
      rcases patient with rfl | rfl
      · rfl
      · rfl
  | confirmed standing => exact absurd standing (doomed.coherent.expired _)
  | failing standing unfinished =>
      rw [standing] at sane
      have nearer := (engine.stepReporting_remaining circumstances sane unfinished).2
      refine stepsLeft_lt rfl ?_ ?_
      · intro _
        rw [standing]
        rfl
      · rw [standing]
        exact Nat.add_lt_add_left nearer 20
  | dying standing unfinished =>
      rw [standing] at sane
      have nearer := (engine.stepReporting_remaining circumstances sane unfinished).2
      refine stepsLeft_lt rfl ?_ ?_
      · intro working
        cases working
      · rw [standing]
        exact Nat.add_lt_add_left nearer 2
  | retiring standing given queue =>
      have nearer := Engine.stepRetirement_remaining given
      refine stepsLeft_lt queue ?_ ?_
      · intro working
        cases working
      · rw [standing]
        exact Nat.add_lt_add_left nearer 13
  | drawing_unrated standing unrated =>
      refine stepsLeft_lt rfl ?_ ?_
      · intro working
        cases working
      · rw [standing]
        simp [Position.distance, Retirement.remaining]
  | stopped standing | retiring_done standing | dying_done standing | leaving standing =>
      refine stepsLeft_lt rfl ?_ ?_
      · intro working
        cases working
      · rw [standing]
        simp [Position.distance, Retirement.remaining, Reporting.remaining]
  | _ =>
      refine stepsLeft_lt rfl ?_ ?_
      · intro _
        rw [‹worker.position = _›]
        rfl
      · rw [‹worker.position = _›]
        simp [Position.distance, Reporting.remaining]

/-- What others send comes behind the stop. -/
theorem Worker.Touched.stepsLeft (touched : worker.Touched later) (doomed : worker.Doomed) :
    later.stepsLeft = worker.stepsLeft := by
  obtain ⟨sent, appended⟩ := touched.queue
  unfold Worker.stepsLeft Worker.ahead
  rw [touched.position, appended]
  split
  · rename_i working
    rw [List.idxOf_append, if_pos (doomed.asked working)]
  · rfl

theorem Worker.stepsLeft_pos (present : worker.position ≠ .exited) : 0 < worker.stepsLeft := by
  have far : 0 < worker.position.distance := by
    cases standing : worker.position with
    | exited => exact absurd standing present
    | waiting task confirmed wait =>
        cases wait with
        | listening | timedOut | draining last => exact Nat.succ_pos 2
        | _ =>
            rename_i outcome
            cases outcome with
            | expired => exact Nat.succ_pos 4
            | interrupted reason => exact Nat.succ_pos 19
            | stopped => exact Nat.succ_pos 1
    | failing reporting | dying reporting | retiring retirement fault =>
        simp only [Position.distance]
        omega
    | _ => simp [Position.distance]
  unfold Worker.stepsLeft
  omega

end Advance

theorem Reporting.remaining_le (reporting : Reporting) : reporting.remaining ≤ 10 := by
  cases reporting with
  | loading path loaded =>
      simp only [remaining]
      omega
  | _ => simp [remaining]

theorem Position.distance_le (position : Position) : position.distance ≤ 33 := by
  cases position with
  | waiting task confirmed wait =>
      cases wait with
      | listening | timedOut | draining last => simp [distance]
      | _ =>
          rename_i outcome
          cases outcome <;> simp [distance]
  | failing reporting | dying reporting =>
      have bound := reporting.remaining_le
      simp only [distance]
      omega
  | retiring retirement fault => cases retirement <;> simp [distance, Retirement.remaining]
  | _ => simp [distance]

end MiningAgent
