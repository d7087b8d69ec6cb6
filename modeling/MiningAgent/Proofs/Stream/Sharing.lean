import MiningAgent.Proofs.Stream.Period
import MiningAgent.SharedStream
import Mathlib.Data.List.Nodup
import Mathlib.Data.List.Range

/-!
# Draws of many callers

The lock keeps the draws of different callers apart.  However their steps are interleaved,
the numbers that have left the stream are those that a single caller would have drawn, each
of them given to one caller once.
-/

namespace MiningAgent.SharedStream

/-- What one step of a caller makes of the whole. -/
inductive Step (shared : SharedStream) (number : Nat) (caller : Caller) : SharedStream → Prop
  | lock (idle : caller.turn = .idle) (free : shared.lockHolder = none) :
      Step shared number caller
        { shared.setCaller number ⟨.locked, caller.received⟩ with lockHolder := some number }
  | load (locked : caller.turn = .locked) :
      Step shared number caller
        (shared.setCaller number ⟨.loaded shared.stream, caller.received⟩)
  | store {seen : Generator} (loaded : caller.turn = .loaded seen) :
      Step shared number caller
        { shared.setCaller number ⟨.stored seen.next, caller.received⟩ with
          stream := seen.next }
  | unlock {drawn : Generator} (stored : caller.turn = .stored drawn) :
      Step shared number caller
        { shared.setCaller number ⟨.unlocked drawn, caller.received⟩ with lockHolder := none }
  | finish {drawn : Generator} (unlocked : caller.turn = .unlocked drawn) :
      Step shared number caller
        (shared.setCaller number ⟨.idle, caller.received ++ [drawn.uniform]⟩)

variable {origin : Generator} {shared next last : SharedStream} {number other : Nat}
  {caller later : Caller} {schedule : List Nat}

theorem exists_step (made : shared.step? number = some next) :
    ∃ caller, shared.callers[number]? = some caller ∧ Step shared number caller next := by
  unfold step? at made
  split at made
  · cases made
  · rename_i caller found
    refine ⟨caller, found, ?_⟩
    split at made
    · rename_i idle
      split at made
      · rename_i free
        cases made
        exact .lock idle free
      · cases made
    all_goals cases made
    · exact .load ‹_›
    · exact .store ‹_›
    · exact .unlock ‹_›
    · exact .finish ‹_›

/-- Nobody but the caller that steps has moved. -/
theorem setCaller_cases {another : Caller}
    (found : (shared.setCaller number later).callers[other]? = some another) :
    (other = number ∧ another = later) ∨
      (other ≠ number ∧ shared.callers[other]? = some another) := by
  rw [setCaller, List.getElem?_set] at found
  split at found
  · rename_i same
    split at found
    · exact .inl ⟨same.symm, (Option.some.inj found).symm⟩
    · cases found
  · rename_i different
    exact .inr ⟨Ne.symm different, found⟩

/-- The number that is on its way to a caller. -/
def Turn.inHand : Turn → List Rat
  | .stored drawn => [drawn.uniform]
  | .unlocked drawn => [drawn.uniform]
  | _ => []

/-- The numbers that a caller has drawn, the one on its way included. -/
def Caller.numbers (caller : Caller) : List Rat := caller.received ++ caller.turn.inHand

/-- All numbers that have left the stream, caller by caller. -/
def numbers (shared : SharedStream) : List Rat := shared.callers.flatMap Caller.numbers

theorem numbers_setCaller (found : shared.callers[number]? = some caller) {more : List Rat}
    (same : later.numbers = caller.numbers ++ more) :
    (shared.setCaller number later).numbers.Perm (shared.numbers ++ more) := by
  unfold numbers setCaller
  generalize shared.callers = callers at found
  induction callers generalizing number with
  | nil => cases found
  | cons first rest hypothesis =>
      cases number with
      | zero =>
          cases found
          rw [List.set_cons_zero, List.flatMap_cons, List.flatMap_cons, same, List.append_assoc,
            List.append_assoc]
          exact List.perm_append_comm.append_left _
      | succ number =>
          rw [List.set_cons_succ, List.flatMap_cons, List.flatMap_cons, List.append_assoc]
          exact (hypothesis found).append_left _

/-- Whether a caller has the lock. -/
def Turn.holdsLock : Turn → Bool
  | .locked => true
  | .loaded _ => true
  | .stored _ => true
  | _ => false

/-- What holds of a stream that has been shared since its state was `origin`. -/
structure Orderly (origin : Generator) (shared : SharedStream) : Prop where
  exclusive : ∀ (number : Nat) caller, shared.callers[number]? = some caller →
    caller.turn.holdsLock → shared.lockHolder = some number
  current : ∀ (number : Nat) caller seen, shared.callers[number]? = some caller →
    caller.turn = .loaded seen → seen = shared.stream
  advanced : shared.stream = Generator.next^[shared.numbers.length] origin
  given : shared.numbers.Perm
    ((List.range shared.numbers.length).map fun position => (origin.draw position).uniform)

theorem opened_numbers (origin : Generator) (callers : Nat) :
    (opened origin callers).numbers = [] := by
  simp [numbers, opened, Caller.numbers, Turn.inHand]

theorem orderly_opened (origin : Generator) (callers : Nat) :
    Orderly origin (opened origin callers) := by
  have idle {number : Nat} {caller : Caller}
      (found : (opened origin callers).callers[number]? = some caller) : caller.turn = .idle := by
    have member := List.mem_of_getElem? found
    rw [List.eq_of_mem_replicate member]
  refine ⟨?_, ?_, ?_, ?_⟩
  · intro number caller found holds
    rw [idle found] at holds
    cases holds
  · intro number caller seen found loaded
    rw [idle found] at loaded
    cases loaded
  · rw [opened_numbers]
    rfl
  · rw [opened_numbers]
    exact .refl _

/-- One caller after the other has the lock. -/
theorem Orderly.exclusive_kept (orderly : Orderly origin shared)
    (found : shared.callers[number]? = some caller) (step : Step shared number caller next) :
    ∀ (other : Nat) another, next.callers[other]? = some another →
      another.turn.holdsLock → next.lockHolder = some other := by
  intro other another there holds
  have own (holding : caller.turn.holdsLock) : shared.lockHolder = some number :=
    orderly.exclusive number caller found holding
  cases step with
  | lock idle free =>
      rcases setCaller_cases there with ⟨rfl, rfl⟩ | ⟨_, unmoved⟩
      · rfl
      · rw [orderly.exclusive other another unmoved holds] at free
        cases free
  | load locked =>
      rcases setCaller_cases there with ⟨rfl, rfl⟩ | ⟨_, unmoved⟩
      · exact own (by rw [locked]; rfl)
      · exact orderly.exclusive other another unmoved holds
  | store loaded =>
      rcases setCaller_cases there with ⟨rfl, rfl⟩ | ⟨_, unmoved⟩
      · exact own (by rw [loaded]; rfl)
      · exact orderly.exclusive other another unmoved holds
  | unlock stored =>
      rcases setCaller_cases there with ⟨rfl, rfl⟩ | ⟨different, unmoved⟩
      · cases holds
      · have holder := orderly.exclusive other another unmoved holds
        rw [own (by rw [stored]; rfl)] at holder
        exact absurd (Option.some.inj holder).symm different
  | finish unlocked =>
      rcases setCaller_cases there with ⟨rfl, rfl⟩ | ⟨_, unmoved⟩
      · cases holds
      · exact orderly.exclusive other another unmoved holds

/-- Nobody writes a state between another's reading and writing. -/
theorem Orderly.current_kept (orderly : Orderly origin shared)
    (found : shared.callers[number]? = some caller) (step : Step shared number caller next) :
    ∀ (other : Nat) another seen, next.callers[other]? = some another →
      another.turn = .loaded seen → seen = next.stream := by
  intro other another seen there loaded
  cases step with
  | lock idle free =>
      rcases setCaller_cases there with ⟨rfl, rfl⟩ | ⟨_, unmoved⟩
      · cases loaded
      · exact orderly.current other another seen unmoved loaded
  | load locked =>
      rcases setCaller_cases there with ⟨rfl, rfl⟩ | ⟨_, unmoved⟩
      · cases loaded
        rfl
      · exact orderly.current other another seen unmoved loaded
  | store ownLoaded =>
      rcases setCaller_cases there with ⟨rfl, rfl⟩ | ⟨different, unmoved⟩
      · cases loaded
      · have holder := orderly.exclusive other another unmoved (by rw [loaded]; rfl)
        rw [orderly.exclusive number caller found (by rw [ownLoaded]; rfl)] at holder
        exact absurd (Option.some.inj holder).symm different
  | unlock stored =>
      rcases setCaller_cases there with ⟨rfl, rfl⟩ | ⟨_, unmoved⟩
      · cases loaded
      · exact orderly.current other another seen unmoved loaded
  | finish unlocked =>
      rcases setCaller_cases there with ⟨rfl, rfl⟩ | ⟨_, unmoved⟩
      · cases loaded
      · exact orderly.current other another seen unmoved loaded

/-- What a step adds to the numbers is the next draw of the stream, or nothing. -/
theorem Orderly.numbers_step (orderly : Orderly origin shared)
    (found : shared.callers[number]? = some caller) (step : Step shared number caller next) :
    (next.stream = shared.stream ∧ next.numbers.Perm shared.numbers) ∨
      (next.stream = shared.stream.next ∧
        next.numbers.Perm (shared.numbers ++ [shared.stream.next.uniform])) := by
  have still {later : Caller} (same : later.numbers = caller.numbers) :
      (shared.setCaller number later).numbers.Perm shared.numbers := by
    have kept : (shared.setCaller number later).numbers.Perm (shared.numbers ++ []) :=
      numbers_setCaller found (by rw [same, List.append_nil])
    rwa [List.append_nil] at kept
  cases step with
  | lock idle free =>
      exact .inl ⟨rfl, still (by simp [Caller.numbers, Turn.inHand, idle])⟩
  | load locked =>
      exact .inl ⟨rfl, still (by simp [Caller.numbers, Turn.inHand, locked])⟩
  | @store seen loaded =>
      have current := orderly.current number caller seen found loaded
      subst current
      exact .inr ⟨rfl, numbers_setCaller found (by simp [Caller.numbers, Turn.inHand, loaded])⟩
  | unlock stored =>
      exact .inl ⟨rfl, still (by simp [Caller.numbers, Turn.inHand, stored])⟩
  | finish unlocked =>
      exact .inl ⟨rfl, still (by simp [Caller.numbers, Turn.inHand, unlocked])⟩

theorem Orderly.kept (orderly : Orderly origin shared)
    (made : shared.step? number = some next) : Orderly origin next := by
  obtain ⟨caller, found, step⟩ := exists_step made
  refine ⟨orderly.exclusive_kept found step, orderly.current_kept found step, ?_, ?_⟩
  · rcases orderly.numbers_step found step with ⟨same, numbers⟩ | ⟨drawn, numbers⟩
    · rw [same, numbers.length_eq]
      exact orderly.advanced
    · rw [drawn, numbers.length_eq, List.length_append, List.length_singleton,
        Function.iterate_succ_apply', ← orderly.advanced]
  · rcases orderly.numbers_step found step with ⟨_, numbers⟩ | ⟨_, numbers⟩
    · rw [numbers.length_eq]
      exact numbers.trans orderly.given
    · have last : shared.stream.next = origin.draw shared.numbers.length := by
        rw [orderly.advanced, Generator.draw, Function.iterate_succ_apply']
      rw [numbers.length_eq, List.length_append, List.length_singleton, List.range_succ,
        List.map_append, List.map_singleton, ← last]
      exact numbers.trans (orderly.given.append_right _)

theorem Orderly.run (orderly : Orderly origin shared)
    (ran : shared.run? schedule = some last) : Orderly origin last := by
  induction schedule generalizing shared with
  | nil =>
      cases ran
      exact orderly
  | cons number rest hypothesis =>
      obtain ⟨middle, made, remaining⟩ := Option.bind_eq_some_iff.mp ran
      exact hypothesis (orderly.kept made) remaining

theorem nodup_draws (origin : Generator) {count : Nat} (within : count ≤ 2 ^ 48) :
    ((List.range count).map fun position => (origin.draw position).uniform).Nodup := by
  apply List.nodup_range.map_on
  intro first member second otherMember same
  rw [List.mem_range] at member otherMember
  have times := (Generator.draw_eq_draw_iff origin first second).mp
    (Generator.uniform_eq_iff.mp same)
  exact times.eq_of_lt_of_lt (by omega) (by omega)

theorem numbers_eq_received (idle : ∀ caller ∈ shared.callers, caller.turn = .idle) :
    shared.numbers = shared.callers.flatMap Caller.received := by
  apply List.flatMap_congr
  intro caller member
  simp [Caller.numbers, Turn.inHand, idle caller member]

/-- The numbers that have left a stream in the state `origin`: they are the first ones of a
single caller, in some order.  Within a period no two of them are equal.  As soon as nobody
is in the middle of a draw, all of them have been returned. -/
structure Shares (origin : Generator) (shared : SharedStream) : Prop where
  first : shared.numbers.Perm
    ((List.range shared.numbers.length).map fun position => (origin.draw position).uniform)
  distinct : shared.numbers.length ≤ 2 ^ 48 → shared.numbers.Nodup
  returned : (∀ caller ∈ shared.callers, caller.turn = .idle) →
    shared.numbers = shared.callers.flatMap Caller.received

theorem Orderly.shares (orderly : Orderly origin shared) : Shares origin shared where
  first := orderly.given
  distinct within := orderly.given.nodup_iff.mpr (nodup_draws origin within)
  returned := numbers_eq_received

/-- From any seed a stream runs through all 48-bit states before one of them comes again,
and it stays among them.  So callers that share it are never given the same number twice
within `2 ^ 48` draws, in whatever order they make their steps. -/
theorem draws_never_repeat (seed : UInt64) :
    Function.minimalPeriod Generator.next (.ofSeed seed) = 2 ^ 48 ∧
      (∀ first second, first < second → second - first < 2 ^ 48 →
        (Generator.next^[first] (.ofSeed seed)).state ≠
            (Generator.next^[second] (.ofSeed seed)).state ∧
          (Generator.next^[first] (.ofSeed seed)).uniform ≠
            (Generator.next^[second] (.ofSeed seed)).uniform) ∧
      (∀ start value, value < 2 ^ 48 → ∃ offset < 2 ^ 48,
        (Generator.next^[start + offset] (.ofSeed seed)).state.toNat = value) ∧
      (∀ count, (Generator.next^[count] (.ofSeed seed)).state.toNat < 2 ^ 48) ∧
      ∀ callers schedule shared, (opened (.ofSeed seed) callers).run? schedule = some shared →
        Shares (.ofSeed seed) shared := by
  have fits := Generator.ofSeed_fits seed
  refine ⟨Generator.minimalPeriod_next fits, ?_, ?_, Generator.iterate_fits fits, ?_⟩
  · intro first second order near
    have different :
        Generator.next^[first] (.ofSeed seed) ≠ Generator.next^[second] (.ofSeed seed) := by
      intro same
      have times := (Generator.iterate_eq_iterate_iff fits first second).mp same
      have divides := (Nat.modEq_iff_dvd' order.le).mp times
      exact absurd (Nat.le_of_dvd (by omega) divides) (by omega)
    exact ⟨fun same => different (Generator.state_eq_iff.mp same),
      fun same => different (Generator.uniform_eq_iff.mp same)⟩
  · intro start value small
    exact Generator.exists_iterate_eq fits start small
  · intro callers schedule shared ran
    exact ((orderly_opened _ callers).run ran).shares

/-- The second caller draws while the first one has its number and has not returned yet. -/
def overtaking : List Nat := [0, 0, 0, 0, 1, 1, 1, 1, 1, 0]

theorem shares_after_overtaking :
    ∃ shared, (opened (.ofSeed 0) 2).run? overtaking = some shared ∧
      shared.callers.map Caller.received =
        [[(Generator.draw (.ofSeed 0) 0).uniform], [(Generator.draw (.ofSeed 0) 1).uniform]] ∧
      Shares (.ofSeed 0) shared := by
  refine ⟨_, rfl, ?_, (draws_never_repeat 0).2.2.2.2 2 overtaking _ rfl⟩
  rfl

end MiningAgent.SharedStream
