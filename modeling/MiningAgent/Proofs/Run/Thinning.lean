import MiningAgent.Proofs.Run.Accounting
import MiningAgent.Proofs.Run.Surplus

/-!
# Histories without refused notifications

Some notifications of a history are chosen, and every moment of theirs is left out.  If the
tracker accepts none of them, what is left can happen by itself: each of its moments differs
from the original one by the surplus of the peer blocks that were left out.
-/

namespace MiningAgent

/-- What the tracker refuses: no difficulty at all, or a height that is not above the last
accepted one. -/
def Tracker.Refuses (tracker : Tracker) (announcement : Announcement) : Prop :=
  announcement.difficulty = 0 ∨
    ∃ last, tracker.accepted = some last ∧ announcement.height ≤ last.height

theorem Tracker.refuses_iff {tracker : Tracker} {announcement : Announcement} :
    tracker.Refuses announcement ↔ tracker.judge announcement ≠ .accepted := by
  rw [Refuses, ne_eq, judge_eq_accepted_iff]
  constructor
  · rintro (zero | ⟨last, had, notAbove⟩) ⟨proper, above⟩
    · exact proper zero
    · exact UInt64.not_lt.mpr notAbove (above last had)
  · intro refused
    by_contra allowed
    simp only [not_or, not_exists, not_and, UInt64.not_le] at allowed
    exact refused allowed

/-- Whether a call passes an announcement on. -/
def Call.notifies : Call → Bool
  | .peerBlock _ => true
  | .difficultyChange _ => true
  | _ => false

/-- Whether a caller passes an announcement on that has not been judged. -/
def Activity.isNotifying : Activity → Bool
  | .peerCounting _ => true
  | .updating _ _ => true
  | _ => false

def Activity.ongoing? : Activity → Option Activity
  | .idle => none
  | activity => some activity

namespace Surplus

/-- The surplus with a caller at some point of a call that only the one agent sees. -/
def stand (surplus : Surplus) (number : Nat) (activity : Option Activity) : Surplus :=
  { surplus with
    inside := fun other => if other = number then activity else surplus.inside other }

/-- The surplus after a moment that is left out. -/
def absorb (surplus : Surplus) (moment : Engine.Moment) (number : Nat) : Surplus :=
  { surplus.stand number (moment.after.callers number).ongoing? with
    counted := surplus.counted + (moment.before.callers number).isTold.toNat }

end Surplus

namespace Engine

/-- The caller whose moment it is, if it belongs to a notification that is left out: one that
begins now and is chosen, or one that began before. -/
def Moment.omitted? (moment : Moment) (chosen : Bool) (surplus : Surplus) : Option Nat :=
  match moment.move with
  | .call number call => if chosen && call.notifies then some number else none
  | .step (.caller number) _ => (surplus.inside number).map fun _ => number
  | _ => none

/-- A history with some notifications left out. -/
structure Thinned where
  /-- What the original agent has more. -/
  surplus : Surplus
  /-- The moments that remain, each with the surplus before it. -/
  kept : List (Moment × Surplus)
  dropped : History

def Thinned.add (thinned : Thinned) (marked : Moment × Bool) : Thinned :=
  match marked.1.omitted? marked.2 thinned.surplus with
  | some number =>
      { thinned with
        surplus := thinned.surplus.absorb marked.1 number
        dropped := thinned.dropped ++ [marked.1] }
  | none =>
      { thinned with
        surplus := marked.1.before.carry thinned.surplus marked.1.move
        kept := thinned.kept ++ [(marked.1, thinned.surplus)] }

/-- A history without the notifications that are marked. -/
def thin (marked : List (Moment × Bool)) : Thinned :=
  marked.foldl Thinned.add ⟨.none, [], []⟩

/-- The peer blocks that were left out have been counted, or somebody is about to count them. -/
def LeftOut (surplus : Surplus) (dropped : History) : Prop :=
  ∃ pending : List Nat, pending.Nodup ∧
    (∀ number, number ∈ pending ↔ (surplus.inside number).any Activity.isTold = true) ∧
    surplus.counted + pending.length = dropped.countP Moment.tells

/-- The history leads to `last` by itself, and the original one to the agent that has the surplus
over `last`. -/
structure Thins (start : Engine) (thinned : Thinned) (finish : Engine) (history : History)
    (last : Engine) : Prop where
  reached : start.Reaches history last
  finish : finish = last.withSurplus thinned.surplus
  kept : List.Forall₂ (fun pair moment => pair.1 = moment.withSurplus pair.2) thinned.kept history
  inside : ∀ number activity, thinned.surplus.inside number = some activity →
    last.callers number = .idle ∧ activity.isNotifying = true
  silent : ∀ moment ∈ thinned.dropped, ∀ event ∈ moment.events,
    (∃ entry, event = .logged entry) ∨ event = .returned (.noted false false)
  told : LeftOut thinned.surplus thinned.dropped

variable {start finish engine last next : Engine} {history : History} {moment : Moment}
  {thinned : Thinned} {move : Move} {events : List Event} {number : Nat}
  {surplus : Surplus} {circumstances : Circumstances}

theorem thin_append (marked : List (Moment × Bool)) (pair : Moment × Bool) :
    thin (marked ++ [pair]) = (thin marked).add pair := by
  simp [thin]

theorem withSurplus_inside {activity : Activity} (inside : surplus.inside number = some activity) :
    (last.withSurplus surplus).callers number = activity := by
  simp [withSurplus, inside]

theorem withSurplus_stand (idle : last.callers number = .idle) (activity : Activity) :
    last.withSurplus (surplus.stand number activity.ongoing?) =
      (last.withSurplus surplus).setCaller number activity := by
  simp only [withSurplus, setCaller, Surplus.stand, mk.injEq, true_and]
  funext other
  by_cases own : other = number
  · subst own
    cases activity <;> simp [Activity.ongoing?, idle, Activity.withPeerBlocks]
  · simp [own]

theorem withSurplus_stand_counted (idle : last.callers number = .idle) (activity : Activity) :
    last.withSurplus
        { surplus.stand number activity.ongoing? with counted := surplus.counted + 1 } =
      { last.withSurplus surplus with
        tally := (last.withSurplus surplus).tally.countPeerBlock }.setCaller number activity := by
  have counted : last.tally.withPeerBlocks (surplus.counted + 1) =
      (last.tally.withPeerBlocks surplus.counted).countPeerBlock := by
    simp [Tally.withPeerBlocks, Tally.countPeerBlock, UInt64.ofNat_add, UInt64.add_assoc]
  have stands := @withSurplus_stand last number surplus idle activity
  simp only [withSurplus, setCaller, mk.injEq, true_and] at stands ⊢
  exact ⟨counted, stands.2⟩

/-- A caller that makes anything else than the steps of a notification is not inside one that
is left out. -/
theorem Thins.outside (thins : Thins start thinned engine history last)
    (apart : (engine.callers number).isNotifying = false) :
    thinned.surplus.inside number = none := by
  cases inside : thinned.surplus.inside number with
  | none => rfl
  | some activity =>
      have notifying := (thins.inside number activity inside).2
      rw [thins.finish, withSurplus_inside inside, notifying] at apart
      cases apart

theorem Thins.idle (thins : Thins start thinned engine history last)
    (idle : engine.callers number = .idle) : last.callers number = .idle := by
  have apart : (engine.callers number).isNotifying = false := by
    rw [idle]
    rfl
  have outside := thins.outside apart
  rw [thins.finish, withSurplus_callers outside] at idle
  cases standing : last.callers number with
  | idle => rfl
  | _ => simp [standing, Activity.withPeerBlocks] at idle

theorem Thins.keep {chosen : Bool} (thins : Thins start thinned engine history last)
    (seen : thinned.surplus.Sees move) (made : engine.move? move = some (next, events))
    (visible : (⟨engine, move, events, next⟩ : Moment).omitted? chosen thinned.surplus = none) :
    ∃ history later, Thins start (thinned.add (⟨engine, move, events, next⟩, chosen)) next
      history later := by
  have same := thins.finish
  subst same
  rw [move?_withSurplus seen] at made
  obtain ⟨⟨later, shown⟩, possible, same⟩ := Option.map_eq_some_iff.mp made
  cases same
  refine ⟨history ++ [⟨last, move, shown, later⟩], later, ?_⟩
  simp only [Thinned.add, visible]
  constructor
  · exact thins.reached.move possible
  · rw [carry_withSurplus seen]
  · refine List.rel_append thins.kept (.cons ?_ .nil)
    rfl
  · intro number activity inside
    have before : thinned.surplus.inside number = some activity := by
      cases move <;> exact inside
    obtain ⟨idle, notifying⟩ := thins.inside number activity before
    have apart : move.caller? ≠ some number := by
      intro about
      rw [seen number about] at before
      cases before
    rw [move?_callers possible apart]
    exact ⟨idle, notifying⟩
  · exact thins.silent
  · obtain ⟨pending, distinct, member, calls⟩ := thins.told
    refine ⟨pending, distinct, ?_, ?_⟩
    · intro number
      rw [member]
      cases move <;> exact Iff.rfl
    · cases move <;> exact calls

theorem LeftOut.absorb {dropped : History} (leftOut : LeftOut surplus dropped)
    (before : (surplus.inside number).any Activity.isTold =
      (moment.before.callers number).isTold)
    (told : (moment.after.callers number).isTold = moment.tells) :
    LeftOut (surplus.absorb moment number) (dropped ++ [moment]) := by
  obtain ⟨pending, distinct, member, calls⟩ := leftOut
  have length : (pending.erase number).length + (moment.before.callers number).isTold.toNat =
      pending.length := by
    cases standing : (moment.before.callers number).isTold with
    | true =>
        have present : number ∈ pending := by
          rw [member, before, standing]
        have positive := List.length_pos_of_mem present
        rw [List.length_erase_of_mem present, Bool.toNat_true]
        omega
    | false =>
        have absent : number ∉ pending := by
          rw [member, before, standing]
          simp
        rw [List.erase_of_not_mem absent, Bool.toNat_false, Nat.add_zero]
  have others (other : Nat) (apart : other ≠ number) :
      other ∈ pending.erase number ↔
        ((surplus.absorb moment number).inside other).any Activity.isTold = true := by
    rw [distinct.mem_erase_iff, member]
    simp [Surplus.absorb, Surplus.stand, apart]
  have here : ((surplus.absorb moment number).inside number).any Activity.isTold =
      moment.tells := by
    rw [← told]
    simp only [Surplus.absorb, Surplus.stand, if_true]
    cases moment.after.callers number <;> rfl
  cases tells : moment.tells with
  | true =>
      refine ⟨number :: pending.erase number,
        List.nodup_cons.mpr ⟨distinct.not_mem_erase, distinct.erase number⟩, ?_, ?_⟩
      · intro other
        by_cases own : other = number
        · simp [own, here, tells]
        · rw [List.mem_cons, ← others other own]
          simp [own]
      · rw [List.countP_append, List.countP_singleton, tells, List.length_cons]
        simp only [Surplus.absorb, if_true]
        omega
  | false =>
      refine ⟨pending.erase number, distinct.erase number, ?_, ?_⟩
      · intro other
        by_cases own : other = number
        · rw [own, here, tells]
          simp [distinct.not_mem_erase]
        · exact others other own
      · rw [List.countP_append, List.countP_singleton, tells]
        simp only [Surplus.absorb, Bool.false_eq_true, if_false]
        omega

theorem Thins.drop {chosen : Bool} (thins : Thins start thinned moment.before history last)
    (own : moment.omitted? chosen thinned.surplus = some number)
    (idle : last.callers number = .idle)
    (before : (thinned.surplus.inside number).any Activity.isTold =
      (moment.before.callers number).isTold)
    (told : (moment.after.callers number).isTold = moment.tells)
    (fits : ∀ activity, (moment.after.callers number).ongoing? = some activity →
      activity.isNotifying = true)
    (after : moment.after = last.withSurplus (thinned.surplus.absorb moment number))
    (silent : ∀ event ∈ moment.events,
      (∃ entry, event = .logged entry) ∨ event = .returned (.noted false false)) :
    Thins start (thinned.add (moment, chosen)) moment.after history last := by
  simp only [Thinned.add, own]
  constructor
  · exact thins.reached
  · exact after
  · exact thins.kept
  · intro other activity inside
    simp only [Surplus.absorb, Surplus.stand] at inside
    split at inside
    · rename_i same
      rw [same]
      exact ⟨idle, fits activity inside⟩
    · exact thins.inside other activity inside
  · exact List.forall_mem_append.mpr ⟨thins.silent, List.forall_mem_singleton.mpr silent⟩
  · exact thins.told.absorb before told

/-- A chosen notification begins. -/
theorem Thins.enter {call : Call} (thins : Thins start thinned engine history last)
    (idle : engine.callers number = .idle) (notifies : call.notifies = true) :
    Thins start
      (thinned.add (⟨engine, .call number call, [], engine.setCaller number call.entry⟩, true))
      (engine.setCaller number call.entry) history last := by
  have lastIdle := thins.idle idle
  have outside : thinned.surplus.inside number = none := by
    apply thins.outside
    rw [idle]
    rfl
  have own : (⟨engine, .call number call, [], engine.setCaller number call.entry⟩ :
      Moment).omitted? true thinned.surplus = some number := by
    simp [Moment.omitted?, notifies]
  have absorbed : thinned.surplus.absorb
      ⟨engine, .call number call, [], engine.setCaller number call.entry⟩ number =
      thinned.surplus.stand number call.entry.ongoing? := by
    simp [Surplus.absorb, idle, Activity.isTold, Surplus.stand]
  refine thins.drop own lastIdle ?_ ?_ ?_ ?_ ?_
  · rw [outside, idle]
    rfl
  · rw [setCaller_self]
    cases call <;> rfl
  · intro activity entered
    rw [setCaller_self] at entered
    cases call with
    | peerBlock announcement | difficultyChange announcement =>
        cases entered
        rfl
    | _ => cases notifies
  · rw [absorbed, withSurplus_stand lastIdle, thins.finish]
  · simp

/-- A left-out notification makes a step. -/
theorem Thins.skip {activity : Activity} {chosen : Bool}
    (thins : Thins start thinned engine history last)
    (inside : thinned.surplus.inside number = some activity)
    (taken : engine.stepCaller number circumstances = some (next, events))
    (refused : ∀ reason announcement, engine.callers number = .updating reason announcement →
      engine.tracker.Refuses announcement) :
    Thins start
      (thinned.add (⟨engine, .step (.caller number) circumstances, events, next⟩, chosen))
      next history last := by
  obtain ⟨lastIdle, notifying⟩ := thins.inside number activity inside
  have standing : engine.callers number = activity := by
    rw [thins.finish, withSurplus_inside inside]
  have own : (⟨engine, .step (.caller number) circumstances, events, next⟩ : Moment).omitted?
      chosen thinned.surplus = some number := by
    simp [Moment.omitted?, inside]
  cases activity with
  | peerCounting announcement =>
      simp only [stepCaller, standing] at taken
      cases taken
      refine thins.drop own lastIdle ?_ ?_ ?_ ?_ ?_
      · rw [inside, standing]
        rfl
      · rw [setCaller_self]
        rfl
      · intro activity entered
        rw [setCaller_self] at entered
        cases entered
        rfl
      · simp only [Surplus.absorb, setCaller_self, standing]
        rw [thins.finish]
        exact (withSurplus_stand_counted lastIdle (.updating .peerBlock announcement)).symm
      · simp
  | updating reason announcement =>
      simp only [stepCaller, standing] at taken
      obtain ⟨entries, logged, ⟨accepted, _⟩ | ⟨_, result⟩⟩ :=
        applyUpdate_cases engine number reason announcement
      · exact absurd accepted (Tracker.refuses_iff.mp (refused reason announcement standing))
      · rw [result] at taken
        cases taken
        refine thins.drop own lastIdle ?_ ?_ ?_ ?_ ?_
        · rw [inside, standing]
          rfl
        · rw [setCaller_self]
          rfl
        · intro activity entered
          rw [setCaller_self] at entered
          cases entered
        · simp only [Surplus.absorb, setCaller_self, standing]
          rw [thins.finish]
          exact (withSurplus_stand lastIdle .idle).symm
        · intro event member
          rcases List.mem_append.mp member with early | last
          · exact .inl (logged event early)
          · exact .inr (List.mem_singleton.mp last)
  | _ => cases notifying

theorem Thins.sees {chosen : Bool} (thins : Thins start thinned engine history last)
    (made : engine.move? move = some (next, events))
    (visible : (⟨engine, move, events, next⟩ : Moment).omitted? chosen thinned.surplus = none) :
    thinned.surplus.Sees move := by
  intro number about
  cases move?_cases made with
  | call idle =>
      cases about
      apply thins.outside
      rw [idle]
      rfl
  | failSpawn standing vacant =>
      cases about
      apply thins.outside
      rw [standing]
      rfl
  | setReportPath => cases about
  | caller taken =>
      cases about
      exact Option.map_eq_none_iff.mp visible
  | worker taken => cases about

theorem Thins.add {chosen : Bool} (thins : Thins start thinned engine history last)
    (made : engine.move? move = some (next, events))
    (refused : ∀ number, (⟨engine, move, events, next⟩ : Moment).omitted? chosen thinned.surplus =
        some number → ∀ reason announcement,
      (⟨engine, move, events, next⟩ : Moment).activity? = some (.updating reason announcement) →
        engine.tracker.Refuses announcement) :
    ∃ history later, Thins start (thinned.add (⟨engine, move, events, next⟩, chosen)) next
      history later := by
  cases omitted : (⟨engine, move, events, next⟩ : Moment).omitted? chosen thinned.surplus with
  | none => exact thins.keep (thins.sees made omitted) made omitted
  | some number =>
      have refuses := refused number omitted
      refine ⟨history, last, ?_⟩
      cases move?_cases made with
      | @call caller call idle =>
          simp only [Moment.omitted?] at omitted
          split at omitted
          · rename_i marked
            simp only [Bool.and_eq_true] at marked
            rw [marked.1]
            exact thins.enter idle marked.2
          · cases omitted
      | caller taken =>
          obtain ⟨activity, inside, same⟩ := Option.map_eq_some_iff.mp omitted
          cases same
          exact thins.skip inside taken fun reason announcement standing =>
            refuses reason announcement (congrArg some standing)
      | failSpawn standing vacant => cases omitted
      | setReportPath => cases omitted
      | worker taken => cases omitted

/-- A history without refused notifications can happen by itself. -/
theorem Reaches.thins {marked : List (Moment × Bool)}
    (reached : start.Reaches (marked.map Prod.fst) finish)
    (refused : ∀ moment ∈ (thin marked).dropped, ∀ reason announcement,
      moment.activity? = some (.updating reason announcement) →
        moment.before.tracker.Refuses announcement) :
    ∃ history last, Thins start (thin marked) finish history last := by
  generalize same : marked.map Prod.fst = whole at reached
  induction reached generalizing marked with
  | refl =>
      cases List.map_eq_nil_iff.mp same
      refine ⟨[], start, .refl, withSurplus_none.symm, .nil, ?_, ?_, ?_⟩
      · intro number activity inside
        cases inside
      · intro moment member
        cases member
      · exact ⟨[], List.nodup_nil, by simp [thin, Surplus.none], rfl⟩
  | @move earlier engine next move events reached made inductionHypothesis =>
      obtain ⟨front, back, rfl, rfl, single⟩ := List.map_eq_append_iff.mp same
      obtain ⟨⟨moment, chosen⟩, rfl, rfl⟩ := List.map_eq_singleton_iff.mp single
      rw [thin_append] at refused ⊢
      have before : ∀ moment ∈ (thin front).dropped,
          moment ∈ ((thin front).add (⟨engine, move, events, next⟩, chosen)).dropped := by
        intro moment member
        simp only [Thinned.add]
        split
        · exact List.mem_append_left _ member
        · exact member
      obtain ⟨history, last, thins⟩ := inductionHypothesis
        (fun moment member => refused moment (before moment member)) rfl
      refine thins.add made ?_
      intro number omitted
      apply refused
      simp [Thinned.add, omitted]

end Engine

end MiningAgent
