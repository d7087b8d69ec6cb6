import MiningAgent.Proofs.Json.Layouts
import MiningAgent.Proofs.Json.Magnitudes
import MiningAgent.Proofs.Json.Members
import MiningAgent.Settings.Record

/-!
# Fields of records

A record is written with each name once.  Whoever asks for some of these names in what
was read back gets the values that were written under them.
-/

namespace MiningAgent.Json

theorem IsPlain.ofMembers {members : List (String × Json)}
    (each : ∀ member ∈ members, member.2.IsPlain) : (ofMembers members).IsPlain := by
  refine .object ?_ ?_
  · intro member here
    obtain ⟨⟨name, value⟩, _, rfl⟩ := List.mem_map.mp here
    exact ⟨name.toList, rfl⟩
  · intro member here
    obtain ⟨⟨name, value⟩, written, rfl⟩ := List.mem_map.mp here
    exact each (name, value) written

/-- The members of a record as they are read back. -/
def membersRead (members : List (String × Json)) : List (List Part × Json) :=
  members.map fun (name, value) => ((name.toList.map Part.char).map Part.reread, value.reread)

theorem membersRead_cons (member : String × Json) (rest : List (String × Json)) :
    membersRead (member :: rest) =
      ((member.1.toList.map .char).map Part.reread, member.2.reread) :: membersRead rest :=
  rfl

theorem membersRead_append (first second : List (String × Json)) :
    membersRead (first ++ second) = membersRead first ++ membersRead second :=
  List.map_append

theorem reread_ofMembers (members : List (String × Json)) :
    (ofMembers members).reread = .object (membersRead members) := by
  rw [ofMembers, reread]
  congr 1
  induction members with
  | nil => rfl
  | cons member rest hypothesis =>
      simp only [List.map_cons, rereadMembers, membersRead, hypothesis]

theorem named_membersRead (members : List (String × Json)) :
    ∀ member ∈ membersRead members,
      ∃ name ∈ members.map Prod.fst, joinParts member.1 = some name.toList := by
  intro member here
  obtain ⟨⟨name, value⟩, written, rfl⟩ := List.mem_map.mp here
  exact ⟨name, List.mem_map.mpr ⟨_, written, rfl⟩, joinParts_reread name.toList⟩

theorem lookup_of_mem {members : List (String × Json)} (distinct : (members.map Prod.fst).Nodup)
    {member : String × Json} (here : member ∈ members) :
    members.lookup member.1 = some member.2 := by
  obtain ⟨front, behind, rfl⟩ := List.append_of_mem here
  refine List.lookup_eq_some_iff.mpr ⟨front, behind, rfl, fun other before => ?_⟩
  simp only [List.map_append, List.map_cons, List.nodup_append, List.mem_map] at distinct
  have different := distinct.2.2 other.1 ⟨other, before, rfl⟩ member.1 List.mem_cons_self
  simpa using Ne.symm different

/-- Among distinct names, a name stands for the value written under it alone. -/
theorem valuesNamed_membersRead {members : List (String × Json)}
    (distinct : (members.map Prod.fst).Nodup) (name : String) :
    valuesNamed name (membersRead members) = ((members.lookup name).map reread).toList := by
  induction members with
  | nil => rfl
  | cons member rest hypothesis =>
      obtain ⟨first, value⟩ := member
      obtain ⟨absent, distinct⟩ := List.nodup_cons.mp distinct
      rw [membersRead_cons, valuesNamed_cons (joinParts_reread first.toList), hypothesis distinct]
      by_cases same : first = name
      · subst same
        have others : rest.lookup first = none := by
          rw [List.lookup_eq_none_iff]
          intro other here
          have different : first ≠ other.1 := fun equal =>
            absent (List.mem_map.mpr ⟨other, here, equal.symm⟩)
          simpa using different
        simp [others]
      · have spelled : first.toList ≠ name.toList := fun equal => same (String.toList_inj.mp equal)
        have looked : (name == first) = false := by simpa using Ne.symm same
        simp [spelled, List.lookup_cons, looked]

theorem objectFields?_membersRead {members : List (String × Json)}
    (distinct : (members.map Prod.fst).Nodup) (names : List String) :
    objectFields? names (membersRead members) =
      some (names.map fun name => (members.lookup name).map reread) := by
  refine objectFields?_eq_some_iff.mpr ⟨fun member here => ?_, _, rfl,
    fun name _ => valuesNamed_membersRead distinct name⟩
  obtain ⟨name, _, spelled⟩ := named_membersRead members member here
  simp [spelled]

theorem fields?_ofMembers {members : List (String × Json)}
    (distinct : (members.map Prod.fst).Nodup) (names : List String) (least : Nat) :
    fields? names least (ofMembers members).reread =
      some (names.map fun name => (members.lookup name).map reread) := by
  rw [reread_ofMembers, fields?, objectFields?_membersRead distinct]

namespace IsPlain

@[simp] theorem ofBool (value : Bool) : (Json.bool value).IsPlain := .bool value

@[simp] theorem ofLong (value : UInt64) : (ofLong value).IsPlain := .ofNat _

@[simp] theorem ofWord (value : UInt32) : (ofWord value).IsPlain := .ofNat _

@[simp] theorem ofString (value : String) : (ofString value).IsPlain := .text _

@[simp] theorem ofLogLevel (level : LogLevel) : level.toJson.IsPlain := .text _

@[simp] theorem ofPath (path : Option String) : (Settings.ofPath path).IsPlain := by
  cases path with
  | none => exact .null
  | some path => exact ofString path

end IsPlain

@[simp] theorem long?_reread (value : UInt64) : long? (ofLong value).reread = some value := by
  have fits : value.toNat ≤ 18446744073709551615 := Nat.le_of_lt_succ value.toNat_lt
  simp [ofLong, ofNat, reread, long?, natural?, fits]

@[simp] theorem word?_reread (value : UInt32) : word? (ofWord value).reread = some value := by
  have fits : value.toNat ≤ 4294967295 := Nat.le_of_lt_succ value.toNat_lt
  simp [ofWord, ofNat, reread, word?, natural?, fits]

@[simp] theorem bool?_reread (value : Bool) : bool? (Json.bool value).reread = some value := rfl

@[simp] theorem string?_reread (value : String) : string? (ofString value).reread = some value := by
  simp only [ofString, reread, string?, joinParts_reread, Option.map_some, String.ofList_toList]

@[simp] theorem logLevel?_reread (level : LogLevel) :
    LogLevel.ofJson? level.toJson.reread = some level := by
  simp only [LogLevel.toJson, ofString, reread, LogLevel.ofJson?, joinParts_reread,
    Option.bind_some, String.ofList_toList, LogLevel.ofName?_name]

@[simp] theorem optional_absent {α : Type} (read : Json → Option α) :
    optional read none = some none := rfl

/-- An optional field is there unless it is null. -/
theorem optional_present {α : Type} {read : Json → Option α} {value : Json} {result : α}
    (present : value ≠ .null) (known : read value = some result) :
    optional read (some value) = some (some result) := by
  cases value <;> simp_all [optional]

@[simp] theorem optionalLong?_reread (value : UInt64) :
    optional long? (some (ofLong value).reread) = some (some value) :=
  optional_present (by simp [ofLong, ofNat, reread]) (long?_reread value)

@[simp] theorem optionalWord?_reread (value : UInt32) :
    optional word? (some (ofWord value).reread) = some (some value) :=
  optional_present (by simp [ofWord, ofNat, reread]) (word?_reread value)

@[simp] theorem path?_reread (path : Option String) :
    optional string? (some (Settings.ofPath path).reread) = some path := by
  cases path with
  | none => rfl
  | some path =>
      exact optional_present (by simp [Settings.ofPath, ofString, reread]) (string?_reread path)

/-- A value that is a whole number of at most 64 bits. -/
def IsWord (value : Json) : Prop := ∃ number ≤ Text.maxLong, value = ofNat number

theorem IsWord.isPlain {value : Json} (word : value.IsWord) : value.IsPlain := by
  obtain ⟨number, _, rfl⟩ := word
  exact .ofNat number

@[simp] theorem IsWord.ofLong (value : UInt64) : (ofLong value).IsWord :=
  ⟨value.toNat, Nat.le_of_lt_succ value.toNat_lt, rfl⟩

@[simp] theorem IsWord.ofWord (value : UInt32) : (ofWord value).IsWord :=
  ⟨value.toNat, Nat.le_trans (Nat.le_of_lt value.toNat_lt) (by decide), rfl⟩

/-- Words can be held back under any name. -/
theorem canHoldBack_membersRead {members : List (String × Json)}
    (each : ∀ member ∈ members, member.2.IsWord) :
    Report.canHoldBack (membersRead members) := by
  simp only [Report.canHoldBack, List.all_eq_true]
  intro member here
  obtain ⟨⟨name, value⟩, written, rfl⟩ := List.mem_map.mp here
  obtain ⟨number, fits, rfl⟩ := each (name, value) written
  have small : number < 10 ^ 308 := Nat.lt_of_le_of_lt fits (by decide +kernel)
  have finite : (Magnitude.ofNumeral (.ofNat number)).isFinite := isFinite_ofInteger false small
  simp [ofNat, reread, isSound, finite, depth]

end MiningAgent.Json
