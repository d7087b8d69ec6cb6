/-!
# Signals

What reaches a worker while it waits, and the queue it comes through.
-/

namespace MiningAgent

/-- Why a wait is cut short. -/
inductive Interruption
  | peerBlock
  | difficultyChange
deriving DecidableEq, Repr

def Interruption.name : Interruption → String
  | .peerBlock => "peer block"
  | .difficultyChange => "difficulty change"

inductive Signal
  | interrupt (reason : Interruption)
  | stop
deriving DecidableEq, Repr

/-- A worker's queue, the oldest signal first.  Once it is disconnected nobody can
send any more, but what is queued can still be taken. -/
structure Mailbox where
  queue : List Signal
  connected : Bool
deriving DecidableEq, Repr

namespace Mailbox

def fresh : Mailbox := ⟨[], true⟩

def send (mailbox : Mailbox) (signal : Signal) : Mailbox :=
  { mailbox with queue := mailbox.queue ++ [signal] }

def disconnect (mailbox : Mailbox) : Mailbox :=
  { mailbox with connected := false }

end Mailbox

end MiningAgent
