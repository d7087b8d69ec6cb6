/-!
# Identity of an agent
-/

namespace MiningAgent

/-- The agent's place in a simulation: the seed that all agents share and the
agent's own number. -/
structure Identity where
  globalSeed : UInt64
  agentId : UInt32
deriving DecidableEq, Repr

/-- The seed of the agent's own stream, modulo `2 ^ 64`. -/
def Identity.agentSeed (identity : Identity) : UInt64 :=
  identity.globalSeed + identity.agentId.toUInt64

structure Hashrate where
  perSecond : UInt64
deriving DecidableEq, Repr

end MiningAgent
