import MiningAgent.Json.Record

/-!
# Members of an object

Fields are looked up by name, each name at most once.  So they depend on the values under
these names alone, and neither on the order of the members nor on the others.
-/

namespace MiningAgent.Json

/-- The values under a name, however the name is spelled. -/
def valuesNamed (name : String) (members : List (List Part × Json)) : List Json :=
  (members.filter fun member => joinParts member.1 = some name.toList).map Prod.snd

/-- A member whose name is text, but none of these names. -/
def IsForeign (known : List String) (member : List Part × Json) : Prop :=
  ∃ name : String, joinParts member.1 = some name.toList ∧ name ∉ known

theorem mapM_eq_some_iff {α β : Type} {read : α → Option β} {items : List α} {results : List β} :
    items.mapM read = some results ↔ items.map read = results.map some := by
  induction items generalizing results with
  | nil => cases results <;> simp
  | cons item rest hypothesis =>
      rw [List.mapM_cons, List.map_cons]
      cases results with
      | nil => simp [Option.bind_eq_some_iff]
      | cons result others => simp [Option.bind_eq_some_iff, hypothesis]

theorem valuesNamed_cons {member : List Part × Json} {text : List Char}
    (spelled : joinParts member.1 = some text) (name : String)
    (rest : List (List Part × Json)) :
    valuesNamed name (member :: rest) =
      if text = name.toList then member.2 :: valuesNamed name rest else valuesNamed name rest := by
  by_cases same : text = name.toList
  · simp [valuesNamed, spelled, same]
  · simp [valuesNamed, spelled, same]

theorem valuesNamed_eq {members : List (List Part × Json)} {texts : List (List Char × Json)}
    (named : named? members = some texts) (name : String) :
    valuesNamed name members =
      (texts.filter fun member => member.1 = name.toList).map Prod.snd := by
  replace named := mapM_eq_some_iff.mp named
  induction members generalizing texts with
  | nil =>
      cases texts with
      | nil => rfl
      | cons first others => cases named
  | cons member rest hypothesis =>
      cases texts with
      | nil => cases named
      | cons first others =>
          simp only [List.map_cons, List.cons.injEq, Option.map_eq_some_iff] at named
          obtain ⟨⟨text, spelled, rfl⟩, named⟩ := named
          rw [valuesNamed_cons spelled, hypothesis named, List.filter_cons]
          by_cases same : text = name.toList <;> simp [same]

theorem named?_isSome_iff (members : List (List Part × Json)) :
    (named? members).isSome ↔ ∀ member ∈ members, (joinParts member.1).isSome := by
  induction members with
  | nil => simp [named?]
  | cons member rest hypothesis =>
      rw [List.forall_mem_cons, ← hypothesis]
      obtain ⟨name, value⟩ := member
      unfold named?
      rw [List.mapM_cons]
      cases spelled : joinParts name with
      | none => simp [spelled]
      | some text => cases List.mapM (m := Option) _ rest <;> simp [spelled]

theorem member?_eq_some_iff {texts : List (List Char × Json)} {name : String}
    {field : Option Json} :
    member? texts name = some field ↔
      (texts.filter fun member => member.1 = name.toList).map Prod.snd = field.toList := by
  unfold member?
  generalize texts.filter (fun member => member.1 = name.toList) = found
  rcases found with _ | ⟨first, _ | ⟨second, rest⟩⟩ <;> cases field <;> simp

/-- The fields of an object are found if all its names are text and if each name looked up
stands in it at most once. -/
theorem objectFields?_eq_some_iff {names : List String} {members : List (List Part × Json)}
    {fields : List (Option Json)} :
    objectFields? names members = some fields ↔
      (∀ member ∈ members, (joinParts member.1).isSome) ∧
        ∃ field : String → Option Json, fields = names.map field ∧
          ∀ name ∈ names, valuesNamed name members = (field name).toList := by
  rw [← named?_isSome_iff, objectFields?]
  cases known : named? members with
  | none => simp
  | some texts =>
      simp only [Option.bind_some, Option.isSome_some, true_and, mapM_eq_some_iff,
        valuesNamed_eq known, ← member?_eq_some_iff]
      constructor
      · intro found
        refine ⟨fun name => (member? texts name).getD none, ?_, fun name here => ?_⟩
        · have unwrapped := congrArg (List.map fun field => field.getD none) found
          simpa [Function.comp_def] using unwrapped.symm
        · have present : member? texts name ∈ fields.map some :=
            found ▸ List.mem_map_of_mem here
          obtain ⟨field, _, same⟩ := List.mem_map.mp present
          simp [← same]
      · rintro ⟨field, rfl, each⟩
        rw [List.map_map]
        exact List.map_congr_left each

variable {names known : List String} {members inserted shuffled : List (List Part × Json)}

theorem valuesNamed_append (name : String) (first second : List (List Part × Json)) :
    valuesNamed name (first ++ second) = valuesNamed name first ++ valuesNamed name second := by
  simp [valuesNamed]

theorem valuesNamed_foreign {name : String} (wanted : name ∈ known)
    (foreign : ∀ member ∈ inserted, IsForeign known member) : valuesNamed name inserted = [] := by
  simp only [valuesNamed, List.map_eq_nil_iff, List.filter_eq_nil_iff, decide_eq_true_eq]
  intro member here same
  obtain ⟨other, spelled, unknown⟩ := foreign member here
  have equal : name = other := String.toList_inj.mp (Option.some.inj (same.symm.trans spelled))
  exact unknown (equal ▸ wanted)

theorem valuesNamed_shuffled {name : String} (same : shuffled.Perm (members ++ inserted))
    (wanted : name ∈ known) (foreign : ∀ member ∈ inserted, IsForeign known member) :
    (valuesNamed name shuffled).Perm (valuesNamed name members) := by
  have moved : (valuesNamed name shuffled).Perm (valuesNamed name (members ++ inserted)) :=
    (same.filter _).map _
  have left := valuesNamed_foreign wanted foreign
  rwa [valuesNamed_append, left, List.append_nil] at moved

/-- Members with other names may stand anywhere between those that are looked up, and these
in any order. -/
theorem objectFields?_shuffled {fields : List (Option Json)}
    (found : objectFields? names members = some fields)
    (same : shuffled.Perm (members ++ inserted)) (wanted : names ⊆ known)
    (foreign : ∀ member ∈ inserted, IsForeign known member) :
    objectFields? names shuffled = some fields := by
  obtain ⟨text, field, rfl, each⟩ := objectFields?_eq_some_iff.mp found
  refine objectFields?_eq_some_iff.mpr ⟨fun member here => ?_, field, rfl, fun name here => ?_⟩
  · rcases List.mem_append.mp (same.mem_iff.mp here) with old | new
    · exact text member old
    · obtain ⟨name, spelled, _⟩ := foreign member new
      simp [spelled]
  · have moved := valuesNamed_shuffled same (wanted here) foreign
    rw [each name here] at moved
    cases value : field name with
    | none =>
        rw [value] at moved
        exact moved.eq_nil
    | some value =>
        rw [value] at moved
        exact List.perm_singleton.mp moved

theorem objectFields?_repeated {name : String} (wanted : name ∈ names)
    (repeated : 2 ≤ (valuesNamed name members).length) : objectFields? names members = none := by
  refine Option.eq_none_iff_forall_ne_some.mpr fun fields found => ?_
  obtain ⟨_, field, _, each⟩ := objectFields?_eq_some_iff.mp found
  have atMostOne := Option.length_toList_le (o := field name)
  rw [each name wanted] at repeated
  omega

/-- Either the fields of an object are not found, or those that are dropped are absent. -/
theorem objectFields?_dropped {fields : List (Option Json)}
    (found : objectFields? names members = some fields) :
    ∃ field : String → Option Json, fields = names.map field ∧
      ∀ name ∈ names, valuesNamed name members = [] → field name = none := by
  obtain ⟨_, field, rfl, each⟩ := objectFields?_eq_some_iff.mp found
  refine ⟨field, rfl, fun name here dropped => ?_⟩
  rw [each name here] at dropped
  simpa using dropped

end MiningAgent.Json
