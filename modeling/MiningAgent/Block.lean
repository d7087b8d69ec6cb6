/-!
# Blocks and the host's request

What a host hands over when it asks for mining, and what it gets back with every
discovery.
-/

namespace MiningAgent

/-- The host's parameters for one run.  The agent passes them back unread with
every block. -/
structure Context where
  wallet : String
  threads : UInt64
  background : Bool
  ignoreBattery : Bool
deriving DecidableEq, Repr

def Context.ofWallet (wallet : String) : Context :=
  ⟨wallet, 1, false, false⟩

/-- A discovered block: where it stands, its nonce, when it was found and the
difficulty it was found against. -/
structure Block where
  agentId : UInt32
  height : UInt64
  nonce : UInt32
  timestamp : UInt64
  difficulty : UInt64
deriving DecidableEq, Repr

def heightAbove (height : UInt64) : UInt64 :=
  if height = 18446744073709551615 then height else height + 1

end MiningAgent
