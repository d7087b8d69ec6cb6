/-!
# Network difficulty

The difficulty that the network last announced.  Announcements arrive late, twice
and out of order; only a strictly greater height takes effect.
-/

namespace MiningAgent

/-- A difficulty and the height it holds from. -/
structure Announcement where
  difficulty : UInt64
  height : UInt64
deriving DecidableEq, Repr

/-- The last announcement that took effect, if any did. -/
structure Tracker where
  accepted : Option Announcement
deriving DecidableEq, Repr

namespace Tracker

/-- What the tracker makes of an announcement. -/
inductive Verdict
  | accepted
  | zeroDifficulty
  /-- The height is not above the last accepted one. -/
  | outOfOrder (last : UInt64)
deriving DecidableEq, Repr

def initial : Tracker := ⟨none⟩

/-- The difficulty and height in effect: difficulty 1 at height 0 before any
announcement. -/
def current (tracker : Tracker) : Announcement :=
  tracker.accepted.getD ⟨1, 0⟩

def judge (tracker : Tracker) (announcement : Announcement) : Verdict :=
  if announcement.difficulty = 0 then .zeroDifficulty
  else
    match tracker.accepted with
    | none => .accepted
    | some last =>
        if announcement.height ≤ last.height then .outOfOrder last.height else .accepted

/-- The tracker after an announcement, with its verdict. -/
def update (tracker : Tracker) (announcement : Announcement) : Verdict × Tracker :=
  match tracker.judge announcement with
  | .accepted => (.accepted, ⟨some announcement⟩)
  | refusal => (refusal, tracker)

theorem judge_eq_accepted_iff {tracker : Tracker} {announcement : Announcement} :
    tracker.judge announcement = .accepted ↔
      announcement.difficulty ≠ 0 ∧
        ∀ last, tracker.accepted = some last → last.height < announcement.height := by
  unfold judge
  split
  · simp_all
  · cases tracker.accepted with
    | none => simp_all
    | some last => simp_all

theorem update_fst (tracker : Tracker) (announcement : Announcement) :
    (tracker.update announcement).1 = tracker.judge announcement := by
  unfold update
  split <;> simp_all

theorem update_of_accepted {tracker : Tracker} {announcement : Announcement}
    (accepted : tracker.judge announcement = .accepted) :
    (tracker.update announcement).2 = ⟨some announcement⟩ := by
  rw [update, accepted]

theorem update_of_refused {tracker : Tracker} {announcement : Announcement}
    (refused : tracker.judge announcement ≠ .accepted) :
    (tracker.update announcement).2 = tracker := by
  unfold update
  split <;> simp_all

end Tracker

end MiningAgent
