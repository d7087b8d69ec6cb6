import MiningAgent.Signal

/-!
# Waiting for a discovery

A wait ends when its delay runs out or a signal arrives.  A signal that is already
queued when the delay runs out still wins, and the first signal drains the queue up
to a stop, so the last one names the outcome.

`Wait.step` takes one signal at a time, and others may send between two steps.
`await` and `confirm` run a whole wait while nobody sends.
-/

namespace MiningAgent

inductive Outcome
  | expired
  | interrupted (reason : Interruption)
  | stopped
deriving DecidableEq, Repr

inductive Wait
  | listening
  /-- The delay has run out; a last look at the queue is due. -/
  | timedOut
  /-- Taking what else is queued; `last` is the latest interruption taken. -/
  | draining (last : Interruption)
  | over (outcome : Outcome)
deriving DecidableEq, Repr

namespace Wait

def take : Signal → Wait
  | .interrupt reason => .draining reason
  | .stop => .over .stopped

/-- One receive.  A listening wait on an empty queue moves only once its delay has
run out.  A wait that is over makes no step. -/
def step (wait : Wait) (mailbox : Mailbox) (delayOver : Bool) : Option (Wait × Mailbox) :=
  match wait, mailbox.queue with
  | .over _, _ => none
  | _, signal :: rest => some (take signal, { mailbox with queue := rest })
  | .listening, [] =>
      if ¬ mailbox.connected then some (.over .stopped, mailbox)
      else if delayOver then some (.timedOut, mailbox)
      else none
  | .timedOut, [] =>
      some (.over (if mailbox.connected then .expired else .stopped), mailbox)
  | .draining last, [] => some (.over (.interrupted last), mailbox)

/-- A bound on the receives that a wait still makes if nobody sends. -/
def remaining (wait : Wait) (mailbox : Mailbox) : Nat :=
  match wait with
  | .over _ => 0
  | .draining _ => mailbox.queue.length + 1
  | .timedOut => mailbox.queue.length + 2
  | .listening => mailbox.queue.length + 3

theorem remaining_step {wait next : Wait} {mailbox rest : Mailbox} {delayOver : Bool}
    (taken : wait.step mailbox delayOver = some (next, rest)) :
    next.remaining rest < wait.remaining mailbox := by
  obtain ⟨queue, connected⟩ := mailbox
  cases queue with
  | nil =>
      cases wait <;> cases connected <;> cases delayOver <;> simp [step] at taken <;>
        obtain ⟨rfl, rfl⟩ := taken <;> simp [remaining]
  | cons signal signals =>
      cases wait <;> simp [step] at taken <;> obtain ⟨rfl, rfl⟩ := taken <;>
        cases signal <;> simp [remaining, take]

def outcome : Wait → Outcome
  | .listening => .expired
  | .timedOut => .expired
  | .draining last => .interrupted last
  | .over outcome => outcome

/-- Runs a wait to its end.  Nobody sends meanwhile and the delay does run out. -/
def run (wait : Wait) (mailbox : Mailbox) : Outcome × Mailbox :=
  match _taken : wait.step mailbox true with
  | some (next, rest) => run next rest
  | none => (wait.outcome, mailbox)
termination_by wait.remaining mailbox
decreasing_by exact remaining_step _taken

end Wait

namespace Mailbox

def await (mailbox : Mailbox) : Outcome × Mailbox :=
  Wait.listening.run mailbox

/-- The look at the queue between an expired wait and its announcement.  A queued
signal starts another wait, which ends at once; any other outcome stands. -/
def confirm (mailbox : Mailbox) (outcome : Outcome) : Outcome × Mailbox :=
  if outcome = .expired ∧ mailbox.queue ≠ [] then Wait.listening.run mailbox
  else (outcome, mailbox)

end Mailbox

end MiningAgent
