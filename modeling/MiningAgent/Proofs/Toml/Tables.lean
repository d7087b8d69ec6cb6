import MiningAgent.Proofs.Toml.Documents

/-!
# Tables in any order

A table whose keys are distinct has the same values in whatever order its entries stand, and
entries of other keys make no difference.
-/

namespace MiningAgent.Toml

namespace Entries

variable {entries other front behind : Entries} {key : Key}

theorem get?_cons (entry : Key × Value) (entries : Entries) (key : Key) :
    get? (entry :: entries) key = if entry.1 = key then some entry.2 else entries.get? key :=
  rfl

theorem get?_eq_none_iff : entries.get? key = none ↔ key ∉ entries.keys := by
  rw [← get?_isNone_iff, Option.isNone_iff_eq_none]

theorem get?_eq_some_iff (distinct : entries.keys.Nodup) {value : Value} :
    entries.get? key = some value ↔ (key, value) ∈ entries := by
  induction entries with
  | nil => simp [get?]
  | cons entry later hypothesis =>
      obtain ⟨alone, distinct⟩ := List.nodup_cons.mp distinct
      rw [get?_cons, List.mem_cons]
      by_cases same : entry.1 = key
      · subst same
        have elsewhere : (entry.1, value) ∉ later := fun member =>
          alone (List.mem_map.mpr ⟨_, member, rfl⟩)
        simp [elsewhere, Prod.ext_iff, eq_comm]
      · have apart : (key, value) ≠ entry := fun equal => same (congrArg Prod.fst equal).symm
        rw [if_neg same, hypothesis distinct]
        simp [apart]

/-- The order of the entries makes no difference. -/
theorem get?_perm (arranged : entries.Perm other) (distinct : entries.keys.Nodup) (key : Key) :
    entries.get? key = other.get? key := by
  have distinctOther : other.keys.Nodup := (arranged.map Prod.fst).nodup_iff.mp distinct
  refine Option.ext fun value => ?_
  rw [get?_eq_some_iff distinct, get?_eq_some_iff distinctOther, arranged.mem_iff]

/-- Entries of other keys make no difference. -/
theorem get?_append (foreign : key ∉ behind.keys) :
    get? (front ++ behind) key = front.get? key := by
  induction front with
  | nil => exact get?_eq_none_iff.mpr foreign
  | cons entry later hypothesis => rw [List.cons_append, get?_cons, get?_cons, hypothesis]

theorem get?_filter (kept : Key → Bool) (entries : Entries) (key : Key) :
    get? (entries.filter fun entry => kept entry.1) key =
      if kept key then entries.get? key else none := by
  induction entries with
  | nil => simp [get?]
  | cons entry later hypothesis =>
      rw [get?_cons, List.filter_cons]
      by_cases same : entry.1 = key
      · subst same
        by_cases keeps : kept entry.1
        · rw [if_pos keeps, get?_cons, if_pos rfl, if_pos rfl, if_pos keeps]
        · rw [if_neg keeps, hypothesis, if_neg keeps, if_neg keeps]
      · rw [if_neg same, ← hypothesis]
        by_cases keeps : kept entry.1
        · rw [if_pos keeps, get?_cons, if_neg same]
        · rw [if_neg keeps]

/-- Entries whose values can be written. -/
def AreWritable (entries : Entries) : Prop :=
  ∀ entry ∈ entries, ∃ spelling, SpellsScalar entry.2 spelling

theorem areWritable_of_writes {written : List (List Char × List Char)}
    (writes : List.Forall₂ Writes written entries) : entries.AreWritable := by
  induction writes with
  | nil => exact List.forall_mem_nil _
  | cons first _ hypothesis => exact List.forall_mem_cons.mpr ⟨⟨_, first.valued.scalar⟩, hypothesis⟩

/-- Whatever the keys are, there is a document of entries that can be written. -/
theorem AreWritable.exists_document (writable : entries.AreWritable) :
    ∃ text, FreeDocument text entries := by
  have blankless : Margin [] := .blank (List.forall_mem_nil _)
  induction entries with
  | nil => exact ⟨[], .last (.empty blankless)⟩
  | cons entry later hypothesis =>
      obtain ⟨⟨spelling, valued⟩, others⟩ := List.forall_mem_cons.mp writable
      obtain ⟨text, document⟩ := hypothesis others
      have unindented : ∀ char ∈ ([] : List Char), isBlank char := List.forall_mem_nil _
      have named : NamesKey entry.1 _ := .spelled (.quoted (spellsText_escaped entry.1))
      have lined := FreeLine.pair unindented named unindented unindented valued blankless
      exact ⟨_, .line lined .feed document⟩

end Entries

end MiningAgent.Toml
