import MiningAgent.Log

/-!
# Broadcasting blocks

Who takes a discovered block from the agent, and what it answers.
-/

namespace MiningAgent

inductive Answer
  | accepted
  | rejected (fault : Fault)
deriving DecidableEq, Repr

/-- A block as its consumer receives it. -/
structure Delivery where
  context : Context
  block : Block
deriving DecidableEq, Repr

inductive Broadcaster
  | log
  /-- Sends every block to a consumer, as long as there is one. -/
  | channel (hasConsumer : Bool)
  | refusing (fault : Fault)
deriving DecidableEq, Repr

namespace Broadcaster

structure Effect where
  answer : Answer
  entries : List LogEntry
  deliveries : List Delivery

def closedChannel : Fault :=
  .broadcast "Block channel closed: sending on a disconnected channel"

def broadcast (broadcaster : Broadcaster) (context : Context) (block : Block) : Effect :=
  match broadcaster with
  | log => ⟨.accepted, [.blockCreated context block], []⟩
  | channel true => ⟨.accepted, [], [⟨context, block⟩]⟩
  | channel false => ⟨.rejected closedChannel, [], []⟩
  | refusing fault => ⟨.rejected fault, [], []⟩

end Broadcaster

end MiningAgent
