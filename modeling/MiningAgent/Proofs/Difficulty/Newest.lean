import MiningAgent.Difficulty
import Mathlib.Data.List.Induction

/-!
# The newest announcement

Announcements arrive in any order.  A tracker that hears all of them says in the end what the
newest one says: of those with a difficulty, the first at the greatest height.
-/

namespace MiningAgent

namespace Announcement

/-- The announcement has a difficulty and a greater height than all before it that have one;
none behind it has a greater height. -/
def IsNewest (announcement : Announcement) (announcements : List Announcement) : Prop :=
  ∃ earlier later, announcements = earlier ++ announcement :: later ∧
    announcement.difficulty ≠ 0 ∧
    (∀ other ∈ earlier, other.difficulty ≠ 0 → other.height < announcement.height) ∧
    ∀ other ∈ later, other.difficulty ≠ 0 → other.height ≤ announcement.height

variable {announcement other : Announcement} {announcements reordered : List Announcement}

theorem IsNewest.member (newest : announcement.IsNewest announcements) :
    announcement ∈ announcements := by
  obtain ⟨earlier, later, rfl, _⟩ := newest
  simp

theorem IsNewest.difficulty_ne_zero (newest : announcement.IsNewest announcements) :
    announcement.difficulty ≠ 0 := by
  obtain ⟨_, _, _, proper, _⟩ := newest
  exact proper

/-- Nothing that has a difficulty is above the newest announcement. -/
theorem IsNewest.height_le (newest : announcement.IsNewest announcements)
    (member : other ∈ announcements) (proper : other.difficulty ≠ 0) :
    other.height ≤ announcement.height := by
  obtain ⟨earlier, later, rfl, _, below, notAbove⟩ := newest
  rcases List.mem_append.mp member with before | behind
  · exact UInt64.le_of_lt (below other before proper)
  · rcases List.mem_cons.mp behind with rfl | behind
    · exact UInt64.le_refl _
    · exact notAbove other behind proper

/-- The newest announcement stays the newest as long as none above it follows. -/
theorem IsNewest.snoc (newest : announcement.IsNewest announcements)
    (notAbove : other.difficulty ≠ 0 → other.height ≤ announcement.height) :
    announcement.IsNewest (announcements ++ [other]) := by
  obtain ⟨earlier, later, rfl, proper, below, behind⟩ := newest
  refine ⟨earlier, later ++ [other], by simp, proper, below, ?_⟩
  intro another member
  rcases List.mem_append.mp member with old | new
  · exact behind another old
  · rw [List.mem_singleton.mp new]
    exact notAbove

theorem isNewest_last (proper : announcement.difficulty ≠ 0)
    (above : ∀ other ∈ announcements, other.difficulty ≠ 0 →
      other.height < announcement.height) :
    announcement.IsNewest (announcements ++ [announcement]) :=
  ⟨announcements, [], rfl, proper, above, by simp⟩

/-- The newest announcement does not depend on the order, if announcements of one height agree
on their difficulty. -/
theorem IsNewest.unique (newest : announcement.IsNewest announcements)
    (newestReordered : other.IsNewest reordered) (same : announcements.Perm reordered)
    (agree : ∀ one ∈ announcements, ∀ two ∈ announcements, one.difficulty ≠ 0 →
      two.difficulty ≠ 0 → one.height = two.height → one.difficulty = two.difficulty) :
    other = announcement := by
  have member : other ∈ announcements := same.mem_iff.mpr newestReordered.member
  have height : other.height = announcement.height := by
    apply UInt64.le_antisymm
    · exact newest.height_le member newestReordered.difficulty_ne_zero
    · exact newestReordered.height_le (same.mem_iff.mp newest.member) newest.difficulty_ne_zero
  have difficulty : other.difficulty = announcement.difficulty :=
    agree other member announcement newest.member newestReordered.difficulty_ne_zero
      newest.difficulty_ne_zero height
  obtain ⟨_, _⟩ := other
  cases height
  cases difficulty
  rfl

end Announcement

namespace Tracker

/-- A tracker after a list of announcements. -/
def hear (tracker : Tracker) (announcements : List Announcement) : Tracker :=
  announcements.foldl (fun tracker announcement => (tracker.update announcement).2) tracker

/-- The announcements of a list that the tracker accepts. -/
def acceptances (tracker : Tracker) : List Announcement → List Announcement
  | [] => []
  | announcement :: rest =>
      let (verdict, next) := tracker.update announcement
      if verdict = .accepted then announcement :: next.acceptances rest
      else next.acceptances rest

/-- A tracker has accepted the newest announcement of a list, or there is none. -/
inductive Tells (announcements : List Announcement) : Tracker → Prop
  | newest {announcement : Announcement} (newest : announcement.IsNewest announcements) :
      Tells announcements ⟨some announcement⟩
  | nothing (improper : ∀ announcement ∈ announcements, announcement.difficulty = 0) :
      Tells announcements ⟨none⟩

variable {tracker : Tracker} {announcement : Announcement} {announcements : List Announcement}

/-- An announcement is accepted if it is above all that the tracker has heard. -/
theorem Tells.judge_iff (tells : tracker.Tells announcements) :
    tracker.judge announcement = .accepted ↔
      announcement.difficulty ≠ 0 ∧
        ∀ other ∈ announcements, other.difficulty ≠ 0 → other.height < announcement.height := by
  rw [judge_eq_accepted_iff]
  refine and_congr_right fun _ => ?_
  cases tells with
  | @newest last newest =>
      constructor
      · intro above other member proper
        exact UInt64.lt_of_le_of_lt (newest.height_le member proper) (above last rfl)
      · intro above _ same
        cases same
        exact above last newest.member newest.difficulty_ne_zero
  | nothing improper =>
      constructor
      · intro _ other member proper
        exact absurd (improper other member) proper
      · rintro _ _ ⟨⟩

theorem Tells.update (tells : tracker.Tells announcements) :
    (tracker.update announcement).2.Tells (announcements ++ [announcement]) := by
  by_cases accepted : tracker.judge announcement = .accepted
  · obtain ⟨proper, above⟩ := tells.judge_iff.mp accepted
    rw [update_of_accepted accepted]
    exact .newest (Announcement.isNewest_last proper above)
  · rw [update_of_refused accepted]
    rw [judge_eq_accepted_iff, not_and] at accepted
    cases tells with
    | newest newest =>
        refine .newest (newest.snoc fun proper => ?_)
        simpa using accepted proper
    | nothing improper =>
        refine .nothing ?_
        intro other member
        rcases List.mem_append.mp member with old | new
        · exact improper other old
        · rw [List.mem_singleton.mp new]
          by_contra proper
          exact accepted proper (by simp)

theorem hear_append (tracker : Tracker) (earlier later : List Announcement) :
    tracker.hear (earlier ++ later) = (tracker.hear earlier).hear later :=
  List.foldl_append

theorem tells_hear (announcements : List Announcement) :
    (initial.hear announcements).Tells announcements := by
  induction announcements using List.reverseRecOn with
  | nil => exact .nothing (by simp)
  | append_singleton earlier announcement inductionHypothesis =>
      rw [hear_append]
      exact inductionHypothesis.update

/-- Whatever is accepted is above what was accepted before. -/
theorem lt_of_mem_acceptances {last : Announcement} (had : tracker.accepted = some last)
    (member : announcement ∈ tracker.acceptances announcements) :
    last.height < announcement.height := by
  induction announcements generalizing tracker last with
  | nil => cases member
  | cons head rest inductionHypothesis =>
      simp only [acceptances, update_fst] at member
      by_cases accepted : tracker.judge head = .accepted
      · have above := (judge_eq_accepted_iff.mp accepted).2 last had
        rw [if_pos accepted, update_of_accepted accepted] at member
        rcases List.mem_cons.mp member with rfl | later
        · exact above
        · exact UInt64.lt_trans above (inductionHypothesis rfl later)
      · rw [if_neg accepted, update_of_refused accepted] at member
        exact inductionHypothesis had member

theorem pairwise_acceptances (tracker : Tracker) (announcements : List Announcement) :
    (tracker.acceptances announcements).Pairwise fun one two => one.height < two.height := by
  induction announcements generalizing tracker with
  | nil => exact .nil
  | cons head rest inductionHypothesis =>
      simp only [acceptances, update_fst]
      split
      · rename_i accepted
        refine .cons ?_ (inductionHypothesis _)
        intro later member
        rw [update_of_accepted accepted] at member
        exact lt_of_mem_acceptances rfl member
      · exact inductionHypothesis _

/-- Trackers that have heard the same announcements in two orders are the same, if
announcements of one height agree on their difficulty. -/
theorem Tells.unique {other : Tracker} {reordered : List Announcement}
    (tells : tracker.Tells announcements) (tellsReordered : other.Tells reordered)
    (same : announcements.Perm reordered)
    (agree : ∀ one ∈ announcements, ∀ two ∈ announcements, one.difficulty ≠ 0 →
      two.difficulty ≠ 0 → one.height = two.height → one.difficulty = two.difficulty) :
    other = tracker := by
  cases tells with
  | newest newest =>
      cases tellsReordered with
      | newest newestReordered => rw [newest.unique newestReordered same agree]
      | nothing improper =>
          have zero := improper _ (same.mem_iff.mp newest.member)
          exact absurd zero newest.difficulty_ne_zero
  | nothing improper =>
      cases tellsReordered with
      | newest newestReordered =>
          have zero := improper _ (same.mem_iff.mpr newestReordered.member)
          exact absurd zero newestReordered.difficulty_ne_zero
      | nothing _ => rfl

theorem Tells.newest_or_nothing (tells : tracker.Tells announcements) :
    (∃ newest : Announcement, newest.IsNewest announcements ∧
        tracker.accepted = some newest ∧ tracker.current = newest) ∨
      (∀ announcement ∈ announcements, announcement.difficulty = 0) ∧
        tracker.accepted = none ∧ tracker.current = ⟨1, 0⟩ := by
  cases tells with
  | newest newest => exact .inl ⟨_, newest, rfl, rfl⟩
  | nothing improper => exact .inr ⟨improper, rfl, rfl⟩

theorem Tells.difficulty_ne_zero (tells : tracker.Tells announcements) :
    tracker.current.difficulty ≠ 0 := by
  cases tells with
  | newest newest => exact newest.difficulty_ne_zero
  | nothing improper => decide

/-- A tracker accepts what is above all that it has heard, says in the end what the newest
announcement says, and says the same in whatever order the announcements come. -/
theorem newest_announcement_wins (announcements : List Announcement) :
    let tracker := initial.hear announcements
    (∀ earlier announcement later, announcements = earlier ++ announcement :: later →
      (((initial.hear earlier).update announcement).1 = .accepted ↔
        announcement.difficulty ≠ 0 ∧ ∀ other ∈ earlier, other.difficulty ≠ 0 →
          other.height < announcement.height)) ∧
      ((∃ newest : Announcement, newest.IsNewest announcements ∧
          tracker.accepted = some newest ∧ tracker.current = newest) ∨
        (∀ announcement ∈ announcements, announcement.difficulty = 0) ∧
          tracker.accepted = none ∧ tracker.current = ⟨1, 0⟩) ∧
      tracker.current.difficulty ≠ 0 ∧
      ((initial.acceptances announcements).map Announcement.height).Pairwise (· < ·) ∧
      ∀ reordered : List Announcement, announcements.Perm reordered →
        (∀ one ∈ announcements, ∀ two ∈ announcements, one.difficulty ≠ 0 →
          two.difficulty ≠ 0 → one.height = two.height → one.difficulty = two.difficulty) →
        (initial.hear reordered).current = tracker.current := by
  intro tracker
  have tells : tracker.Tells announcements := tells_hear announcements
  refine ⟨?_, ?_, tells.difficulty_ne_zero, ?_, ?_⟩
  · intro earlier announcement later _
    rw [update_fst]
    exact (tells_hear earlier).judge_iff
  · exact tells.newest_or_nothing
  · exact List.pairwise_map.mpr (pairwise_acceptances initial announcements)
  · intro reordered same agree
    rw [tells.unique (tells_hear reordered) same agree]

/-- Two announcements at one height agree, one has no difficulty, and the newest comes late. -/
def scattered : List Announcement := [⟨0, 9⟩, ⟨5, 0⟩, ⟨7, 3⟩, ⟨6, 2⟩, ⟨7, 3⟩]

theorem scattered_heard_backwards :
    (initial.hear scattered).current = ⟨7, 3⟩ ∧
      (((initial.hear [⟨0, 9⟩]).update ⟨5, 0⟩).1 = .accepted ↔
        (5 : UInt64) ≠ 0 ∧ ∀ other ∈ [(⟨0, 9⟩ : Announcement)], other.difficulty ≠ 0 →
          other.height < 0) ∧
      (initial.hear scattered.reverse).current = (initial.hear scattered).current := by
  obtain ⟨accepts, _, _, _, alike⟩ := newest_announcement_wins scattered
  refine ⟨by decide, accepts _ _ _ rfl, alike _ scattered.reverse_perm.symm (by decide)⟩

end Tracker

end MiningAgent
