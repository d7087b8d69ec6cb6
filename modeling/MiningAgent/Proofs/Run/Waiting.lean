import MiningAgent.Wait
import Mathlib.Data.List.Basic

/-!
# What a wait decides

A wait may be over by a signal, by its delay or by the loss of its sender, and signals may
arrive at any moment of it.  Its outcome depends on the signals it sees alone, and so does what
stays queued.

* `Signal.Drains`: taking the queued signals in order, up to the first stop.
* `Wait.Received`: the cases of one receive.
* `Wait.Course`: a whole wait, with the signals sent during it.
-/

namespace MiningAgent

/-- Signals are taken in order, up to the first stop.  Without a stop the last one names the
outcome, and nothing stays. -/
inductive Signal.Drains : List Signal → Outcome → List Signal → Prop
  | stopped {front behind : List Signal} (unstopped : .stop ∉ front) :
      Drains (front ++ .stop :: behind) .stopped behind
  | interrupted {front : List Signal} {last : Interruption} (unstopped : .stop ∉ front) :
      Drains (front ++ [.interrupt last]) (.interrupted last) []

namespace Signal

variable {queue behind : List Signal} {outcome : Outcome} {reason : Interruption}

theorem drains_stop (behind : List Signal) : Drains (.stop :: behind) .stopped behind :=
  @Drains.stopped [] behind (by simp)

theorem drains_last (reason : Interruption) :
    Drains [.interrupt reason] (.interrupted reason) [] :=
  @Drains.interrupted [] reason (by simp)

/-- An interruption in front of others is forgotten. -/
theorem Drains.cons (drains : Drains queue outcome behind) (reason : Interruption) :
    Drains (.interrupt reason :: queue) outcome behind := by
  cases drains with
  | @stopped front _ unstopped =>
      exact @Drains.stopped (.interrupt reason :: front) behind (by simpa using unstopped)
  | @interrupted front last unstopped =>
      exact @Drains.interrupted (.interrupt reason :: front) last (by simpa using unstopped)

theorem exists_drains (nonempty : queue ≠ []) : ∃ outcome behind, Drains queue outcome behind := by
  induction queue with
  | nil => exact absurd rfl nonempty
  | cons signal rest inductionHypothesis =>
      cases signal with
      | stop => exact ⟨_, _, drains_stop rest⟩
      | interrupt reason =>
          by_cases last : rest = []
          · subst last
            exact ⟨_, _, drains_last reason⟩
          · obtain ⟨outcome, behind, drains⟩ := inductionHypothesis last
            exact ⟨outcome, behind, drains.cons reason⟩

theorem drains_unstopped (nonempty : queue ≠ []) (unstopped : .stop ∉ queue) :
    ∃ last, Drains queue (.interrupted last) [] := by
  obtain ⟨outcome, behind, drains⟩ := exists_drains nonempty
  cases drains with
  | stopped _ => simp at unstopped
  | @interrupted front last within => exact ⟨last, .interrupted within⟩

theorem Drains.of_stop (drains : Drains (.stop :: queue) outcome behind) :
    outcome = .stopped ∧ behind = queue := by
  generalize same : Signal.stop :: queue = whole at drains
  cases drains with
  | @stopped front _ unstopped =>
      cases front with
      | nil => cases same; exact ⟨rfl, rfl⟩
      | cons _ _ => cases same; simp at unstopped
  | @interrupted front _ unstopped =>
      cases front with
      | nil => cases same
      | cons _ _ => cases same; simp at unstopped

theorem Drains.of_interrupt (drains : Drains (.interrupt reason :: queue) outcome behind) :
    (queue = [] ∧ outcome = .interrupted reason ∧ behind = []) ∨ Drains queue outcome behind := by
  generalize same : Signal.interrupt reason :: queue = whole at drains
  cases drains with
  | @stopped front _ unstopped =>
      cases front with
      | nil => cases same
      | cons _ _ => cases same; exact .inr (.stopped (by simp_all))
  | @interrupted front _ unstopped =>
      cases front with
      | nil => cases same; exact .inl ⟨rfl, rfl, rfl⟩
      | cons _ _ => cases same; exact .inr (.interrupted (by simp_all))

theorem Drains.queue_ne_nil (drains : Drains queue outcome behind) : queue ≠ [] := by
  cases drains with
  | stopped _ => simp
  | interrupted _ => simp

theorem Drains.outcome_ne_expired (drains : Drains queue outcome behind) :
    outcome ≠ .expired := by
  cases drains with
  | stopped _ => simp
  | interrupted _ => simp

theorem Drains.unique {other : Outcome} {rest : List Signal} (drains : Drains queue outcome behind)
    (drainsToo : Drains queue other rest) : other = outcome ∧ rest = behind := by
  induction queue with
  | nil => exact absurd rfl drains.queue_ne_nil
  | cons signal signals inductionHypothesis =>
      cases signal with
      | stop =>
          obtain ⟨rfl, rfl⟩ := drains.of_stop
          exact drainsToo.of_stop
      | interrupt reason =>
          rcases drains.of_interrupt with ⟨empty, rfl, rfl⟩ | later
          · subst empty
            rcases drainsToo.of_interrupt with ⟨_, same⟩ | later
            · exact same
            · exact absurd rfl later.queue_ne_nil
          · rcases drainsToo.of_interrupt with ⟨empty, _⟩ | laterToo
            · exact absurd empty later.queue_ne_nil
            · exact inductionHypothesis later laterToo

end Signal

namespace Mailbox

variable {mailbox : Mailbox} {outcome : Outcome}

theorem confirm_of_ne_expired (mailbox : Mailbox) (unexpired : outcome ≠ .expired) :
    mailbox.confirm outcome = (outcome, mailbox) :=
  if_neg fun expired => unexpired expired.1

theorem confirm_of_empty (empty : mailbox.queue = []) :
    mailbox.confirm outcome = (outcome, mailbox) :=
  if_neg fun queued => queued.2 empty

theorem confirm_expired (queued : mailbox.queue ≠ []) :
    mailbox.confirm .expired = Wait.listening.run mailbox :=
  if_pos ⟨rfl, queued⟩

end Mailbox

namespace Wait

/-- The cases of `Wait.step`. -/
inductive Received (mailbox : Mailbox) (delayOver : Bool) : Wait → Wait → Mailbox → Prop
  | taking {wait : Wait} {reason : Interruption} {rest : List Signal}
      (unfinished : ∀ outcome, wait ≠ .over outcome)
      (queued : mailbox.queue = .interrupt reason :: rest) :
      Received mailbox delayOver wait (.draining reason) { mailbox with queue := rest }
  | stopping {wait : Wait} {rest : List Signal}
      (unfinished : ∀ outcome, wait ≠ .over outcome)
      (queued : mailbox.queue = .stop :: rest) :
      Received mailbox delayOver wait (.over .stopped) { mailbox with queue := rest }
  | timingOut (empty : mailbox.queue = []) (connected : mailbox.connected = true)
      (due : delayOver = true) :
      Received mailbox delayOver .listening .timedOut mailbox
  | expiring (empty : mailbox.queue = []) (connected : mailbox.connected = true) :
      Received mailbox delayOver .timedOut (.over .expired) mailbox
  | losing {wait : Wait} (patient : wait = .listening ∨ wait = .timedOut)
      (empty : mailbox.queue = []) (disconnected : mailbox.connected = false) :
      Received mailbox delayOver wait (.over .stopped) mailbox
  | settling {last : Interruption} (empty : mailbox.queue = []) :
      Received mailbox delayOver (.draining last) (.over (.interrupted last)) mailbox

variable {wait next : Wait} {mailbox rest left : Mailbox} {delayOver : Bool}

theorem step_cases (taken : wait.step mailbox delayOver = some (next, rest)) :
    Received mailbox delayOver wait next rest := by
  obtain ⟨queue, connected⟩ := mailbox
  cases queue with
  | cons signal signals =>
      have unfinished : ∀ outcome, wait ≠ .over outcome := by
        rintro outcome rfl
        simp [step] at taken
      cases signal <;> cases wait <;> simp only [step, take] at taken <;> cases taken
      all_goals first | exact .taking unfinished rfl | exact .stopping unfinished rfl
  | nil =>
      cases wait with
      | listening =>
          cases connected <;> cases delayOver <;> simp [step] at taken <;>
            obtain ⟨rfl, rfl⟩ := taken
          · exact .losing (.inl rfl) rfl rfl
          · exact .losing (.inl rfl) rfl rfl
          · exact .timingOut rfl rfl rfl
      | timedOut =>
          cases connected <;> simp [step] at taken <;> obtain ⟨rfl, rfl⟩ := taken
          · exact .losing (.inr rfl) rfl rfl
          · exact .expiring rfl rfl
      | draining last =>
          simp [step] at taken
          obtain ⟨rfl, rfl⟩ := taken
          exact .settling rfl
      | _ => simp [step] at taken

/-- Once its delay has run out, only a wait that is over makes no step. -/
theorem over_of_step_eq_none (blocked : wait.step mailbox true = none) :
    ∃ outcome, wait = .over outcome := by
  obtain ⟨queue, connected⟩ := mailbox
  cases queue <;> cases wait <;> simp_all [step]
  · cases connected <;> simp_all

/-- A wait listens only at its beginning. -/
theorem Received.ne_listening (received : Received mailbox delayOver wait next rest) :
    next ≠ .listening := by
  cases received with
  | _ => simp

/-- Only a wait for a signal that may still come depends on the delay. -/
theorem step_of_due (due : wait ≠ .listening ∨ mailbox.queue ≠ [] ∨ mailbox.connected = false)
    (delayOver : Bool) : wait.step mailbox delayOver = wait.step mailbox true := by
  obtain ⟨queue, connected⟩ := mailbox
  cases queue <;> cases wait <;> simp_all [step]

/-- A wait from where it stands to its outcome and the mailbox that it leaves: the ticks of its
delay, what it receives, the signals that are sent to it and the loss of its sender, in any
order. -/
inductive Course : Nat → Wait → Mailbox → List Signal → Outcome → Mailbox → Prop
  | ended {delay : Nat} {outcome : Outcome} {mailbox : Mailbox} :
      Course delay (.over outcome) mailbox [] outcome mailbox
  | received {delay : Nat} {wait next : Wait} {mailbox rest left : Mailbox}
      {sent : List Signal} {outcome : Outcome}
      (taken : wait.step mailbox (decide (delay = 0)) = some (next, rest))
      (course : Course delay next rest sent outcome left) :
      Course delay wait mailbox sent outcome left
  | ticked {delay : Nat} {wait : Wait} {mailbox left : Mailbox} {sent : List Signal}
      {outcome : Outcome} (course : Course delay wait mailbox sent outcome left) :
      Course (delay + 1) wait mailbox sent outcome left
  | sent {delay : Nat} {wait : Wait} {mailbox left : Mailbox} {signal : Signal}
      {sent : List Signal} {outcome : Outcome} (unfinished : ∀ outcome, wait ≠ .over outcome)
      (connected : mailbox.connected = true)
      (course : Course delay wait (mailbox.send signal) sent outcome left) :
      Course delay wait mailbox (signal :: sent) outcome left
  | hungUp {delay : Nat} {wait : Wait} {mailbox left : Mailbox} {sent : List Signal}
      {outcome : Outcome} (unfinished : ∀ outcome, wait ≠ .over outcome)
      (course : Course delay wait mailbox.disconnect sent outcome left) :
      Course delay wait mailbox sent outcome left

variable {delay : Nat} {sent : List Signal} {outcome settled : Outcome}

/-- A wait that is over receives nothing and is sent nothing. -/
theorem Course.of_over (course : Course delay (.over settled) mailbox sent outcome left) :
    sent = [] ∧ outcome = settled ∧ left = mailbox := by
  generalize same : Wait.over settled = wait at course
  induction course with
  | ended => cases same; exact ⟨rfl, rfl, rfl⟩
  | received taken _ _ => subst same; simp [step] at taken
  | ticked _ inductionHypothesis => exact inductionHypothesis same
  | sent unfinished _ _ _ => exact absurd same.symm (unfinished settled)
  | hungUp unfinished _ _ => exact absurd same.symm (unfinished settled)

/-- The sender is not regained. -/
theorem Course.connected (course : Course delay wait mailbox sent outcome left)
    (connected : left.connected = true) : mailbox.connected = true := by
  induction course with
  | ended => exact connected
  | received taken _ inductionHypothesis =>
      have before := inductionHypothesis connected
      cases step_cases taken <;> exact before
  | ticked _ inductionHypothesis => exact inductionHypothesis connected
  | sent _ before _ _ => exact before
  | hungUp _ _ inductionHypothesis =>
      have impossible := inductionHypothesis connected
      simp [Mailbox.disconnect] at impossible

/-- What a wait still comes to, by the signals that it sees from here on. -/
def Comes (connected : Bool) (seen : List Signal) (outcome : Outcome) (behind : List Signal) :
    Wait → Prop
  | .over settled => outcome = settled ∧ behind = seen
  | .draining last => Signal.Drains (.interrupt last :: seen) outcome behind
  | .listening | .timedOut =>
      Signal.Drains seen outcome behind ∨
        seen = [] ∧ behind = [] ∧ outcome = if connected then .expired else .stopped

theorem comes_of_drains {connected : Bool} {seen behind : List Signal}
    (unfinished : ∀ outcome, wait ≠ .over outcome) (drains : Signal.Drains seen outcome behind) :
    wait.Comes connected seen outcome behind := by
  cases wait with
  | listening | timedOut => exact .inl drains
  | draining last => exact drains.cons last
  | _ => exact absurd rfl (unfinished _)

/-- The invariant of a course: the wait comes to the outcome that its signals decide. -/
theorem Course.comes (course : Course delay wait mailbox sent outcome left) :
    wait.Comes left.connected (mailbox.queue ++ sent) outcome left.queue := by
  induction course with
  | ended => exact ⟨rfl, (List.append_nil _).symm⟩
  | ticked _ inductionHypothesis => exact inductionHypothesis
  | hungUp _ _ inductionHypothesis => exact inductionHypothesis
  | sent _ _ _ inductionHypothesis => simpa [Mailbox.send] using inductionHypothesis
  | received taken course inductionHypothesis =>
      cases step_cases taken with
      | taking unfinished queued =>
          rw [queued]
          exact comes_of_drains unfinished inductionHypothesis
      | stopping unfinished queued =>
          obtain ⟨rfl, behind⟩ := inductionHypothesis
          rw [queued, behind]
          exact comes_of_drains unfinished (Signal.drains_stop _)
      | timingOut _ _ _ => exact inductionHypothesis
      | expiring empty connected =>
          obtain ⟨rfl, rfl, rfl⟩ := course.of_over
          exact .inr (by simp [empty, connected])
      | losing patient empty disconnected =>
          obtain ⟨rfl, rfl, rfl⟩ := course.of_over
          rcases patient with rfl | rfl <;> exact .inr (by simp [empty, disconnected])
      | settling empty =>
          obtain ⟨rfl, rfl, rfl⟩ := course.of_over
          rw [empty]
          exact Signal.drains_last _

theorem run_of_step (taken : wait.step mailbox true = some (next, rest)) :
    wait.run mailbox = next.run rest := by
  rw [run]
  split <;> simp_all

theorem run_over (outcome : Outcome) (mailbox : Mailbox) :
    (Wait.over outcome).run mailbox = (outcome, mailbox) := by
  rw [run]
  split
  · rename_i taken
    simp [step] at taken
  · rfl

/-- A wait that nobody sends to is one of its courses, at any delay. -/
theorem course_run (delay : Nat) (wait : Wait) (mailbox : Mailbox) :
    Course delay wait mailbox [] (wait.run mailbox).1 (wait.run mailbox).2 := by
  induction delay with
  | succ delay inductionHypothesis => exact .ticked inductionHypothesis
  | zero =>
      induction wait, mailbox using run.induct with
      | case1 wait mailbox next rest taken inductionHypothesis =>
          rw [run_of_step taken]
          exact .received (by simpa using taken) inductionHypothesis
      | case2 wait mailbox blocked =>
          obtain ⟨outcome, rfl⟩ := over_of_step_eq_none blocked
          rw [run_over]
          exact .ended

theorem run_connected (wait : Wait) (mailbox : Mailbox) :
    (wait.run mailbox).2.connected = mailbox.connected := by
  induction wait, mailbox using run.induct with
  | case1 wait mailbox next rest taken inductionHypothesis =>
      rw [run_of_step taken, inductionHypothesis]
      cases step_cases taken <;> rfl
  | case2 wait mailbox blocked =>
      obtain ⟨outcome, rfl⟩ := over_of_step_eq_none blocked
      rw [run_over]

/-- A wait that finds signals, or no sender, comes to what the signals drain to. -/
theorem run_of_drains {behind : List Signal} (drains : Signal.Drains mailbox.queue outcome behind) :
    Wait.listening.run mailbox = (outcome, ⟨behind, mailbox.connected⟩) := by
  have comes := (course_run 0 .listening mailbox).comes
  rw [List.append_nil] at comes
  have connected := run_connected .listening mailbox
  rcases comes with drained | ⟨empty, _⟩
  · obtain ⟨same, left⟩ := drains.unique drained
    rw [← same, ← left, ← connected]
  · exact absurd empty drains.queue_ne_nil

theorem run_of_lost (empty : mailbox.queue = []) (lost : mailbox.connected = false) :
    Wait.listening.run mailbox = (.stopped, mailbox) := by
  have taken : Wait.listening.step mailbox true = some (.over .stopped, mailbox) := by
    simp [step, empty, lost]
  rw [run_of_step taken, run_over]

/-- What a wait and the look at the queue behind it decide, and what they leave queued: the
wait sees `seen`, and `late` is queued between the two. -/
inductive Decides (connected : Bool) (seen late : List Signal) : Outcome → List Signal → Prop
  | drained {outcome : Outcome} {behind : List Signal}
      (drains : Signal.Drains seen outcome behind) :
      Decides connected seen late outcome (behind ++ late)
  | lost (unseen : seen = []) (disconnected : connected = false) :
      Decides connected seen late .stopped late
  | superseded {outcome : Outcome} {behind : List Signal} (unseen : seen = [])
      (sending : connected = true) (drains : Signal.Drains late outcome behind) :
      Decides connected seen late outcome behind
  | expired (unseen : seen = []) (sending : connected = true) (unsent : late = []) :
      Decides connected seen late .expired []

theorem Decides.expired_iff {connected : Bool} {seen late behind : List Signal}
    (decides : Decides connected seen late outcome behind) :
    outcome = .expired ↔ connected = true ∧ seen = [] ∧ late = [] := by
  cases decides with
  | drained drains => simp [drains.outcome_ne_expired, drains.queue_ne_nil]
  | lost _ disconnected => simp [disconnected]
  | superseded _ _ drains => simp [drains.outcome_ne_expired, drains.queue_ne_nil]
  | expired unseen sending unsent => simp [unseen, sending, unsent]

/-- The look at the queue behind a wait decides by what the wait left and what came late. -/
theorem decides_confirm {connected : Bool} {seen late : List Signal} {found : Mailbox}
    (comes : Comes connected seen outcome left.queue .listening)
    (queued : found.queue = left.queue ++ late) :
    Decides connected seen late (found.confirm outcome).1 (found.confirm outcome).2.queue := by
  rcases comes with drains | ⟨rfl, empty, rfl⟩
  · rw [found.confirm_of_ne_expired drains.outcome_ne_expired, queued]
    exact .drained drains
  · rw [empty, List.nil_append] at queued
    cases connected with
    | false =>
        rw [found.confirm_of_ne_expired (by simp), queued]
        exact .lost rfl rfl
    | true =>
        by_cases unsent : late = []
        · rw [found.confirm_of_empty (queued.trans unsent), queued, unsent]
          exact .expired rfl rfl rfl
        · rw [if_pos rfl, found.confirm_expired (by rwa [queued])]
          have comes := (course_run 0 .listening found).comes
          rw [List.append_nil, queued] at comes
          rcases comes with drains | ⟨empty, _⟩
          · exact .superseded rfl rfl drains
          · exact absurd empty unsent

/-- A wait and the look at the queue behind it decide by the signals they see, at every delay,
whenever during the wait the signals come and whether or not the sender is lost.  A wait that
nobody sends to has such a course. -/
theorem waiting_decides_by_signals (mailbox : Mailbox) (delay : Nat) (late : List Signal)
    (connectedLater : Bool) :
    (Course delay .listening mailbox [] mailbox.await.1 mailbox.await.2 ∧
        mailbox.await.2.connected = mailbox.connected) ∧
      (∀ sent outcome left, Course delay .listening mailbox sent outcome left →
        let confirmed := Mailbox.confirm ⟨left.queue ++ late, connectedLater⟩ outcome
        (left.connected = true → mailbox.connected = true) ∧
          Decides left.connected (mailbox.queue ++ sent) late confirmed.1 confirmed.2.queue ∧
          (confirmed.1 = .expired ↔
            left.connected = true ∧ mailbox.queue ++ sent = [] ∧ late = [])) ∧
      ∀ (found : Mailbox) (outcome : Outcome), outcome ≠ .expired →
        found.confirm outcome = (outcome, found) := by
  refine ⟨⟨course_run delay .listening mailbox, run_connected .listening mailbox⟩, ?_, ?_⟩
  · intro sent outcome left course confirmed
    have decides : Decides left.connected (mailbox.queue ++ sent) late confirmed.1
        confirmed.2.queue := decides_confirm course.comes rfl
    exact ⟨course.connected, decides, decides.expired_iff⟩
  · intro found outcome unexpired
    exact found.confirm_of_ne_expired unexpired

/-- The delay of three ticks runs out, and a stop comes before the look at the queue. -/
theorem late_stop_supersedes :
    let late : List Signal := [.interrupt .peerBlock, .stop, .interrupt .difficultyChange]
    let confirmed := Mailbox.confirm ⟨late, true⟩ .expired
    Course 3 .listening .fresh [] .expired .fresh ∧
      Decides true [] late confirmed.1 confirmed.2.queue ∧
      confirmed = (.stopped, ⟨[.interrupt .difficultyChange], true⟩) ∧
      Mailbox.confirm ⟨late, true⟩ .stopped = (.stopped, ⟨late, true⟩) := by
  intro late confirmed
  obtain ⟨⟨course, _⟩, decides, stands⟩ := waiting_decides_by_signals .fresh 3 late true
  have await : Mailbox.fresh.await = (.expired, .fresh) := by
    simp [Mailbox.await, Mailbox.fresh, run, step, Wait.outcome]
  rw [await] at course
  refine ⟨course, (decides _ _ _ course).2.1, ?_, stands _ _ (by decide)⟩
  simp [confirmed, late, Mailbox.confirm, run, step, take, Wait.outcome]

end Wait

end MiningAgent
