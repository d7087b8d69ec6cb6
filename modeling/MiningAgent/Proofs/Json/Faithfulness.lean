import MiningAgent.Proofs.Json.Records
import MiningAgent.Proofs.Settings.Drafts

/-!
# Records survive their JSON

Whatever record an agent writes, its text holds that record and no other, be it one
line or a report file.  Settings are read more strictly than they are written, so a
text of invalid settings is refused.
-/

namespace MiningAgent

open Json

/-- How the values of one type are written to JSON and read from it. -/
structure Coding (α : Type) where
  toJson : α → Json
  ofJson? : Json → Option α

namespace Coding

variable {α : Type} {coding : Coding α} {Valid : α → Prop}

/-- A value on one line. -/
def lineText (coding : Coding α) (value : α) : String :=
  (coding.toJson value).compact

/-- A value as a file of its own, one item a line. -/
def fileText (coding : Coding α) (value : α) : String :=
  (coding.toJson value).pretty ++ "\n"

/-- The value that a text holds. -/
def decode? (coding : Coding α) (text : String) : Option α :=
  (Json.read? text.toList).bind coding.ofJson?

/-- Texts of valid values hold these values, texts of other values hold none, and no
two values share a text. -/
structure IsFaithful (coding : Coding α) (Valid : α → Prop) : Prop where
  line_decodes : ∀ value, Valid value → coding.decode? (coding.lineText value) = some value
  file_decodes : ∀ value, Valid value → coding.decode? (coding.fileText value) = some value
  line_refused : ∀ value, ¬ Valid value → coding.decode? (coding.lineText value) = none
  file_refused : ∀ value, ¬ Valid value → coding.decode? (coding.fileText value) = none
  line_injective : Function.Injective coding.lineText
  file_injective : Function.Injective coding.fileText

/-- It is enough to look at what is read back of a value's JSON. -/
theorem isFaithful (plain : ∀ value, (coding.toJson value).IsPlain)
    (decodes : ∀ value, Valid value → coding.ofJson? (coding.toJson value).reread = some value)
    (refused : ∀ value, ¬ Valid value → coding.ofJson? (coding.toJson value).reread = none)
    (distinguished : Function.Injective fun value => (coding.toJson value).reread) :
    coding.IsFaithful Valid := by
  have line : ∀ value, Json.read? (coding.lineText value).toList =
      some (coding.toJson value).reread := fun value => (plain value).read_compact
  have file : ∀ value, Json.read? (coding.fileText value).toList =
      some (coding.toJson value).reread := fun value => (plain value).read_pretty_line
  constructor
  case line_decodes =>
    intro value valid
    rw [decode?, line, Option.bind_some, decodes value valid]
  case file_decodes =>
    intro value valid
    rw [decode?, file, Option.bind_some, decodes value valid]
  case line_refused =>
    intro value invalid
    rw [decode?, line, Option.bind_some, refused value invalid]
  case file_refused =>
    intro value invalid
    rw [decode?, file, Option.bind_some, refused value invalid]
  case line_injective =>
    intro first second same
    have read := line first
    rw [same, line] at read
    exact (distinguished (Option.some.inj read)).symm
  case file_injective =>
    intro first second same
    have read := file first
    rw [same, file] at read
    exact (distinguished (Option.some.inj read)).symm

/-- A type without invalid values. -/
theorem isFaithful_of_decodes (plain : ∀ value, (coding.toJson value).IsPlain)
    (decodes : ∀ value, coding.ofJson? (coding.toJson value).reread = some value) :
    coding.IsFaithful fun _ => True := by
  refine isFaithful plain (fun value _ => decodes value)
    (fun _ invalid => absurd trivial invalid) ?_
  intro first second same
  have read := decodes first
  simp only [same, decodes] at read
  exact (Option.some.inj read).symm

/-- A record that is written with all its fields and read by their names. -/
theorem isFaithful_of_fields {members : α → List (String × Json)} {names : List String}
    {least : Nat} {ofFields? : List (Option Json) → Option α}
    (written : ∀ value, coding.toJson value = .ofMembers (members value))
    (read : ∀ json, coding.ofJson? json = (fields? names least json).bind ofFields?)
    (distinct : ∀ value, ((members value).map Prod.fst).Nodup)
    (plain : ∀ value, ∀ member ∈ members value, member.2.IsPlain)
    (decodes : ∀ value, ofFields? (names.map fun name => ((members value).lookup name).map reread) =
      some value) :
    coding.IsFaithful fun _ => True := by
  refine isFaithful_of_decodes (fun value => ?_) fun value => ?_
  · rw [written]
    exact .ofMembers (plain value)
  · rw [written, read, fields?_ofMembers (distinct value), Option.bind_some, decodes]

end Coding

namespace Identity

def coding : Coding Identity := ⟨toJson, ofJson?⟩

theorem isFaithful : coding.IsFaithful fun _ => True :=
  Coding.isFaithful_of_fields (fun _ => rfl) (fun _ => rfl) (by simp) (by simp)
    (by simp [required, List.lookup_cons])

end Identity

namespace Hashrate

def coding : Coding Hashrate := ⟨toJson, ofJson?⟩

theorem isFaithful : coding.IsFaithful fun _ => True :=
  Coding.isFaithful_of_fields (fun _ => rfl) (fun _ => rfl) (by simp) (by simp)
    (by simp [required, List.lookup_cons])

end Hashrate

namespace Context

def coding : Coding Context := ⟨toJson, ofJson?⟩

theorem isFaithful : coding.IsFaithful fun _ => True :=
  Coding.isFaithful_of_fields (fun _ => rfl) (fun _ => rfl) (by simp) (by simp)
    (by simp [required, List.lookup_cons])

end Context

namespace Block

def coding : Coding Block := ⟨toJson, ofJson?⟩

theorem isFaithful : coding.IsFaithful fun _ => True :=
  Coding.isFaithful_of_fields (fun _ => rfl) (fun _ => rfl) (by simp) (by simp)
    (by simp [required, List.lookup_cons])

end Block

namespace Tally

def coding : Coding Tally := ⟨toJson, ofJson?⟩

theorem isFaithful : coding.IsFaithful fun _ => True :=
  Coding.isFaithful_of_fields (fun _ => rfl) (fun _ => rfl) (by simp [members]) (by simp [members])
    (by simp [members, fieldNames, ofFields?, required, List.lookup_cons])

end Tally

namespace Report

def coding : Coding Report := ⟨toJson, ofJson?⟩

/-- The members of a report's object. -/
def members (report : Report) : List (String × Json) :=
  [("agent_id", .ofWord report.agentId), ("hashrate", .ofLong report.hashrate)] ++
    report.tally.members ++
    (match report.averageBlockTime with
     | none => []
     | some average => [("average_block_time_ns", .ofLong average)])

theorem toJson_eq (report : Report) : report.toJson = .ofMembers report.members := rfl

theorem members_distinct (report : Report) : (report.members.map Prod.fst).Nodup := by
  unfold members
  split <;> simp [Tally.members]

theorem members_words (report : Report) : ∀ member ∈ report.members, member.2.IsWord := by
  unfold members
  split <;> simp [Tally.members]

/-- The counters are found among the members that are not the report's own. -/
theorem ofJson?_reread (report : Report) : ofJson? report.toJson.reread = some report := by
  rw [toJson_eq, reread_ofMembers]
  simp only [ofJson?, canHoldBack_membersRead report.members_words, if_true,
    objectFields?_membersRead report.members_distinct]
  obtain ⟨agentId, hashrate, tally, average⟩ := report
  cases average with
  | none =>
      simp [members, ownNames, Tally.members, Tally.fieldNames, Tally.ofFields?, required,
        List.lookup_cons]
  | some average =>
      simp [members, ownNames, Tally.members, Tally.fieldNames, Tally.ofFields?, required,
        List.lookup_cons]

theorem isFaithful : coding.IsFaithful fun _ => True :=
  Coding.isFaithful_of_decodes
    (fun report => .ofMembers fun member here => (report.members_words member here).isPlain)
    ofJson?_reread

end Report

namespace Settings

def coding : Coding Settings := ⟨toJson, ofJson?⟩

/-- Whatever settings were written, valid or not, their draft is read. -/
theorem draft_reread (settings : Settings) :
    Draft.ofJson? settings.toJson.reread = some settings.toDraft := by
  simp only [toJson, Draft.ofJson?]
  rw [fields?_ofMembers (by simp)]
  simp [withDefault, List.lookup_cons, toDraft]

theorem isFaithful : coding.IsFaithful IsValid := by
  refine Coding.isFaithful (fun settings => .ofMembers (by simp)) ?_ ?_ ?_
  · intro settings valid
    have checked := (check_eq_ok_iff settings settings).mpr ⟨valid, rfl⟩
    simp only [coding, ofJson?, draft_reread, Option.bind_some, complete_toDraft, checked]
    rfl
  · intro settings invalid
    simp only [coding, ofJson?, draft_reread, Option.bind_some, complete_toDraft, check]
    split
    next valid => exact absurd valid invalid
    next => rfl
  · intro first second same
    have read := draft_reread first
    simp only [coding] at same
    rw [same, draft_reread] at read
    exact toDraft_injective (Option.some.inj read).symm

end Settings

/-- The text of every record holds that record and no other, on one line as well as in a
file of its own, which for a report is the file that the agent writes.  Only settings can be
invalid, and the text of invalid settings holds nothing. -/
theorem records_survive_json :
    Identity.coding.IsFaithful (fun _ => True) ∧ Hashrate.coding.IsFaithful (fun _ => True) ∧
      Context.coding.IsFaithful (fun _ => True) ∧ Block.coding.IsFaithful (fun _ => True) ∧
      Tally.coding.IsFaithful (fun _ => True) ∧ Report.coding.IsFaithful (fun _ => True) ∧
      Report.coding.fileText = Report.fileText ∧ Settings.coding.IsFaithful Settings.IsValid :=
  ⟨Identity.isFaithful, Hashrate.isFaithful, Context.isFaithful, Block.isFaithful,
    Tally.isFaithful, Report.isFaithful, rfl, Settings.isFaithful⟩

end MiningAgent
