import MiningAgent.Identity
import MiningAgent.Proofs.Stream.Congruence

/-!
# The streams of different agents

Agents share a simulation and are told apart by their numbers.  Their streams either are
one and the same, or they disagree at every position.
-/

namespace MiningAgent

namespace Identity

def stream (identity : Identity) : Generator := .ofSeed identity.agentSeed

/-- The number that the seed of an agent's stream stands for. -/
def seedNumber (identity : Identity) : Nat :=
  (identity.globalSeed.toNat + identity.agentId.toNat) % 2 ^ 64

variable {first second : Identity}

theorem agentSeed_toNat (identity : Identity) :
    identity.agentSeed.toNat = identity.seedNumber := by
  rw [agentSeed, UInt64.toNat_add, UInt32.toNat_toUInt64, seedNumber]

theorem draw_eq_iff (first second : Identity) (position : Nat) :
    first.stream.draw position = second.stream.draw position ↔
      first.seedNumber ≡ second.seedNumber [MOD 2 ^ 32] := by
  rw [stream, stream, Generator.draw, Generator.draw,
    Generator.iterate_eq_iff (Generator.ofSeed_fits _) (Generator.ofSeed_fits _),
    Generator.ofSeed_eq_iff, agentSeed_toNat, agentSeed_toNat]

/-- Within one simulation the seeds tell all agents apart, even where a sum starts again
from zero. -/
theorem not_congruent_of_agentId_ne (simulation : first.globalSeed = second.globalSeed)
    (different : first.agentId ≠ second.agentId) :
    ¬ first.seedNumber ≡ second.seedNumber [MOD 2 ^ 32] := by
  intro congruent
  have bound := first.agentId.toNat_lt
  have otherBound := second.agentId.toNat_lt
  rw [seedNumber, seedNumber, simulation, Nat.ModEq] at congruent
  exact different (UInt32.toNat_inj.mp (by omega))

/-- Two agents draw the same at a position, as a state and as a number between zero and one,
exactly if their seeds are congruent modulo `2 ^ 32`.  So agents of one simulation with
different numbers never draw the same, and seeds that agree in their low 32 bits give one
stream. -/
theorem draws_coincide_iff (first second : Identity) (position : Nat) :
    ((first.stream.draw position).state = (second.stream.draw position).state ↔
        first.seedNumber ≡ second.seedNumber [MOD 2 ^ 32]) ∧
      ((first.stream.draw position).uniform = (second.stream.draw position).uniform ↔
        first.seedNumber ≡ second.seedNumber [MOD 2 ^ 32]) ∧
      (first.stream.draw position).uniform =
        ((first.stream.draw position).state.toNat : Rat) / 2 ^ 48 ∧
      0 ≤ (first.stream.draw position).uniform ∧ (first.stream.draw position).uniform < 1 ∧
      (first.globalSeed = second.globalSeed → first.agentId ≠ second.agentId →
        (first.stream.draw position).state ≠ (second.stream.draw position).state ∧
          (first.stream.draw position).uniform ≠ (second.stream.draw position).uniform) ∧
      (∀ seed other : UInt64, seed.toNat ≡ other.toNat [MOD 2 ^ 32] →
        (Generator.ofSeed seed).draw position = (Generator.ofSeed other).draw position) := by
  have states : (first.stream.draw position).state = (second.stream.draw position).state ↔
      first.seedNumber ≡ second.seedNumber [MOD 2 ^ 32] := by
    rw [Generator.state_eq_iff, draw_eq_iff]
  have numbers : (first.stream.draw position).uniform = (second.stream.draw position).uniform ↔
      first.seedNumber ≡ second.seedNumber [MOD 2 ^ 32] := by
    rw [Generator.uniform_eq_iff, draw_eq_iff]
  refine ⟨states, numbers, Generator.uniform_eq _, Generator.uniform_nonneg _,
    Generator.uniform_lt_one (Generator.draw_fits _ position), ?_, ?_⟩
  · intro simulation different
    have apart := not_congruent_of_agentId_ne simulation different
    exact ⟨fun same => apart (states.mp same), fun same => apart (numbers.mp same)⟩
  · intro seed other congruent
    rw [(Generator.ofSeed_eq_iff seed other).mpr congruent]

/-- The seeds of these two agents are the largest one and zero. -/
theorem draws_apart_past_largest_seed :
    (⟨18446744073709551615, 0⟩ : Identity).seedNumber = 18446744073709551615 ∧
      (⟨18446744073709551615, 1⟩ : Identity).seedNumber = 0 ∧
      ((⟨18446744073709551615, 0⟩ : Identity).stream.draw 1000000).state ≠
        ((⟨18446744073709551615, 1⟩ : Identity).stream.draw 1000000).state := by
  have coincide := draws_coincide_iff ⟨18446744073709551615, 0⟩ ⟨18446744073709551615, 1⟩ 1000000
  obtain ⟨_, _, _, _, _, apart, _⟩ := coincide
  exact ⟨by decide, by decide, (apart rfl (by decide)).1⟩

end Identity

end MiningAgent
