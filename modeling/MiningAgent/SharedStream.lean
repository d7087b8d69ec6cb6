import MiningAgent.Generator

/-!
# A stream with many callers

One stream may serve any number of callers.  Whoever draws takes the lock of the stream,
reads its state, writes the next one, gives the lock back and returns with its number.
Between two of these steps any other caller may make one of its own.
-/

namespace MiningAgent

namespace SharedStream

inductive Turn
  | idle
  | locked
  /-- It has read the state and not yet written the next one. -/
  | loaded (seen : Generator)
  | stored (drawn : Generator)
  /-- It has given the lock back and is about to return. -/
  | unlocked (drawn : Generator)
deriving DecidableEq, Repr

structure Caller where
  turn : Turn
  received : List Rat
deriving DecidableEq, Repr

end SharedStream

structure SharedStream where
  stream : Generator
  lockHolder : Option Nat
  callers : List SharedStream.Caller
deriving DecidableEq, Repr

namespace SharedStream

def opened (stream : Generator) (callers : Nat) : SharedStream where
  stream := stream
  lockHolder := none
  callers := List.replicate callers ⟨.idle, []⟩

def setCaller (shared : SharedStream) (number : Nat) (caller : Caller) : SharedStream :=
  { shared with callers := shared.callers.set number caller }

/-- The next step of a caller.  There is none while it waits for the lock. -/
def step? (shared : SharedStream) (number : Nat) : Option SharedStream :=
  match shared.callers[number]? with
  | none => none
  | some caller =>
      match caller.turn with
      | .idle =>
          if shared.lockHolder = none then
            some { shared.setCaller number ⟨.locked, caller.received⟩ with
              lockHolder := some number }
          else none
      | .locked => some (shared.setCaller number ⟨.loaded shared.stream, caller.received⟩)
      | .loaded seen =>
          some { shared.setCaller number ⟨.stored seen.next, caller.received⟩ with
            stream := seen.next }
      | .stored drawn =>
          some { shared.setCaller number ⟨.unlocked drawn, caller.received⟩ with
            lockHolder := none }
      | .unlocked drawn =>
          some (shared.setCaller number ⟨.idle, caller.received ++ [drawn.uniform]⟩)

def run? (shared : SharedStream) (schedule : List Nat) : Option SharedStream :=
  schedule.foldlM step? shared

end SharedStream

end MiningAgent
