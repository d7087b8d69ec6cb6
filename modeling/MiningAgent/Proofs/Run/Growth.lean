import MiningAgent.Proofs.Run.Accounting
import MiningAgent.Proofs.Run.Settlement

/-!
# Counters never go back

A step adds at most one to each counter, so a counter that starts at zero cannot wrap around in
a history of fewer moments than there are words.  The mining time stays at the largest word once
it is there.  A worker counts an iteration before the block that the iteration ends in, so there
are never more blocks than iterations.
-/

namespace MiningAgent

/-- A word stays as it is or is raised by one. -/
def Ticks (word later : UInt64) : Prop := later = word ∨ later = word + 1

theorem Ticks.refl (word : UInt64) : Ticks word word := .inl rfl

theorem Ticks.rises {word later : UInt64} {bound : Nat} (ticks : Ticks word later)
    (below : word.toNat ≤ bound) (fewer : bound + 1 < 2 ^ 64) :
    word ≤ later ∧ later.toNat ≤ bound + 1 := by
  rcases ticks with rfl | rfl
  · exact ⟨UInt64.le_refl _, by omega⟩
  · have sum : (word + 1).toNat = word.toNat + 1 := by
      rw [UInt64.toNat_add, UInt64.toNat_one]
      omega
    refine ⟨UInt64.le_iff_toNat_le.mpr ?_, ?_⟩
    · omega
    · omega

namespace Tally

theorem le_addSaturating (total elapsed : UInt64) : total ≤ addSaturating total elapsed := by
  have bound := total.toNat_lt
  rw [UInt64.le_iff_toNat_le, addSaturating_toNat]
  omega

/-- Neither a counter nor the mining time is above the other tally's.  The time of the last block
is left out, for the clock that it is read from may be set back. -/
structure AtMost (tally other : Tally) : Prop where
  blocksFound : tally.blocksFound ≤ other.blocksFound
  iterations : tally.iterations ≤ other.iterations
  peerBlocks : tally.peerBlocks ≤ other.peerBlocks
  errors : tally.errors ≤ other.errors
  miningTime : tally.miningTime ≤ other.miningTime

/-- No counter is above a bound. -/
structure Below (tally : Tally) (bound : Nat) : Prop where
  blocksFound : tally.blocksFound.toNat ≤ bound
  iterations : tally.iterations.toNat ≤ bound
  peerBlocks : tally.peerBlocks.toNat ≤ bound
  errors : tally.errors.toNat ≤ bound

/-- Each counter ticks at most once, and the mining time does not go back. -/
structure Advances (tally later : Tally) : Prop where
  blocksFound : Ticks tally.blocksFound later.blocksFound
  iterations : Ticks tally.iterations later.iterations
  peerBlocks : Ticks tally.peerBlocks later.peerBlocks
  errors : Ticks tally.errors later.errors
  miningTime : tally.miningTime ≤ later.miningTime

variable {tally other later : Tally}

theorem AtMost.refl (tally : Tally) : tally.AtMost tally :=
  ⟨UInt64.le_refl _, UInt64.le_refl _, UInt64.le_refl _, UInt64.le_refl _, UInt64.le_refl _⟩

theorem AtMost.trans (first : tally.AtMost other) (second : other.AtMost later) :
    tally.AtMost later where
  blocksFound := UInt64.le_trans first.blocksFound second.blocksFound
  iterations := UInt64.le_trans first.iterations second.iterations
  peerBlocks := UInt64.le_trans first.peerBlocks second.peerBlocks
  errors := UInt64.le_trans first.errors second.errors
  miningTime := UInt64.le_trans first.miningTime second.miningTime

theorem Advances.atMost {bound : Nat} (advances : tally.Advances later)
    (below : tally.Below bound) (fewer : bound + 1 < 2 ^ 64) : tally.AtMost later where
  blocksFound := (advances.blocksFound.rises below.blocksFound fewer).1
  iterations := (advances.iterations.rises below.iterations fewer).1
  peerBlocks := (advances.peerBlocks.rises below.peerBlocks fewer).1
  errors := (advances.errors.rises below.errors fewer).1
  miningTime := advances.miningTime

theorem Advances.below {bound : Nat} (advances : tally.Advances later)
    (below : tally.Below bound) (fewer : bound + 1 < 2 ^ 64) : later.Below (bound + 1) where
  blocksFound := (advances.blocksFound.rises below.blocksFound fewer).2
  iterations := (advances.iterations.rises below.iterations fewer).2
  peerBlocks := (advances.peerBlocks.rises below.peerBlocks fewer).2
  errors := (advances.errors.rises below.errors fewer).2

theorem Advances.refl (tally : Tally) : tally.Advances tally :=
  ⟨.refl _, .refl _, .refl _, .refl _, UInt64.le_refl _⟩

theorem advances_countBlock (tally : Tally) : tally.Advances tally.countBlock :=
  { Advances.refl tally with blocksFound := .inr rfl }

theorem advances_countIteration (tally : Tally) : tally.Advances tally.countIteration :=
  { Advances.refl tally with iterations := .inr rfl }

theorem advances_countPeerBlock (tally : Tally) : tally.Advances tally.countPeerBlock :=
  { Advances.refl tally with peerBlocks := .inr rfl }

theorem advances_countError (tally : Tally) : tally.Advances tally.countError :=
  { Advances.refl tally with errors := .inr rfl }

theorem advances_dateBlock (tally : Tally) (timestamp : UInt64) :
    tally.Advances (tally.dateBlock timestamp) :=
  { Advances.refl tally with }

theorem advances_addMiningTime (tally : Tally) (elapsed : UInt64) :
    tally.Advances (tally.addMiningTime elapsed) :=
  { Advances.refl tally with miningTime := le_addSaturating _ _ }

end Tally

theorem Reporting.advances (reporting : Reporting) (tally : Tally) :
    tally.Advances (reporting.record tally) := by
  cases reporting with
  | counting fault => exact tally.advances_countError
  | _ => exact .refl _

theorem Retirement.advances (retirement : Retirement) (now : Instant) (tally : Tally) :
    tally.Advances (retirement.record now tally) := by
  cases retirement with
  | accounting run => exact tally.advances_addMiningTime _
  | _ => exact .refl _

theorem Position.advances (position : Position) (now : Instant) (tally : Tally) :
    tally.Advances (position.record now tally) := by
  cases position with
  | counting task => exact tally.advances_countIteration
  | crediting block => exact tally.advances_countBlock
  | dating block => exact tally.advances_dateBlock _
  | failing reporting | dying reporting => exact reporting.advances tally
  | retiring retirement fault => exact retirement.advances now tally
  | _ => exact .refl _

theorem Activity.advances (activity : Activity) (now : Instant) (tally : Tally) :
    tally.Advances (activity.record now tally) := by
  cases activity with
  | startRefusing fault stage | reporting stage => exact stage.advances tally
  | stopAccounting run => exact tally.advances_addMiningTime _
  | peerCounting announcement => exact tally.advances_countPeerBlock
  | retiring stage => exact stage.advances now tally
  | _ => exact .refl _

namespace Engine

variable {start finish engine next : Engine} {history : History} {move : Move}
  {events : List Event}

theorem move?_advances (made : engine.move? move = some (next, events)) :
    engine.tally.Advances next.tally := by
  cases move?_cases made with
  | call idle | failSpawn standing vacant | setReportPath => exact .refl _
  | caller taken =>
      rw [stepCaller_tally taken]
      exact Activity.advances _ _ _
  | worker taken =>
      obtain ⟨worker, found⟩ := exists_of_stepWorker taken
      rw [(stepWorker_leaves taken found).tally]
      exact Position.advances _ _ _

/-- A history of so few moments that no counter wraps around raises them all. -/
theorem Reaches.rises {bound : Nat} (reached : start.Reaches history finish)
    (below : start.tally.Below bound) (fewer : bound + history.length < 2 ^ 64) :
    start.tally.AtMost finish.tally ∧ finish.tally.Below (bound + history.length) := by
  induction reached with
  | refl => exact ⟨.refl _, below⟩
  | @move history engine next move events reached made inductionHypothesis =>
      rw [List.length_append, List.length_singleton, ← Nat.add_assoc] at fewer ⊢
      obtain ⟨risen, small⟩ := inductionHypothesis (by omega)
      have advances := move?_advances made
      exact ⟨risen.trans (advances.atMost small fewer), advances.below small fewer⟩

section Created

variable {agent : Agent} {stream : Generator} {path : Option String}

theorem below_created : (created agent stream .initial .zero path).tally.Below 0 :=
  ⟨Nat.le_refl _, Nat.le_refl _, Nat.le_refl _, Nat.le_refl _⟩

/-- A block is counted at the end of an iteration that has been counted. -/
theorem Reaches.blocks_le_iterations
    (reached : (created agent stream .initial .zero path).Reaches history finish)
    (fewer : history.length < 2 ^ 64) : finish.tally.blocksFound ≤ finish.tally.iterations := by
  have tended := tended_created agent stream .zero path
  have crediting := reached.balance tended rfl turns_crediting rfl
  have ongoing := reached.balance tended rfl turns_ongoing rfl
  rw [count_ends, length_accepted] at ongoing
  rw [UInt64.le_iff_toNat_le, reached.tally_blocksFound, reached.tally_iterations,
    toNat_ofNat_of_le (count_le_length history) fewer,
    toNat_ofNat_of_le (count_le_length history) fewer]
  omega

end Created

end Engine

end MiningAgent
