import MiningAgent.Proofs.Json.Faithfulness

/-!
# Decoding whatever the presentation

One record has many texts.  Its members may stand in any order, among foreign ones and with
white space around every token, and most records may be written as a row of their values.
All of them hold the same record.  Only a report is particular about foreign members: it
holds them back until the counters are picked from among them, and so they have to be sound.
-/

namespace MiningAgent

open Json

/-- A text of a value, with white space wherever it may stand. -/
def Presents (value : Json) (text : String) : Prop :=
  Spells value.tokens text.toList

/-- White space in front of a text and behind it does not matter. -/
theorem Presents.padded {value : Json} {text front behind : String}
    (presented : Presents value text) (before : ∀ char ∈ front.toList, char ∈ blanks)
    (after : ∀ char ∈ behind.toList, char ∈ blanks) :
    Presents value (front ++ text ++ behind) := by
  have margin : Spells [] behind.toList := by simpa using Spells.white after .nil
  simpa [Presents] using (Spells.append presented margin).white before

theorem presents_compact {members : List (String × Json)}
    (plain : ∀ member ∈ members, member.2.IsPlain) :
    Presents (.object (membersRead members)) (Json.ofMembers members).compact := by
  rw [Presents, ← reread_ofMembers, compact, String.toList_ofList]
  exact (IsPlain.ofMembers plain).spells_compact

namespace Coding

variable {α : Type} {coding : Coding α} {Valid : α → Prop}

theorem decode?_of_presents {value : Json} {text : String} (presented : Presents value text) :
    coding.decode? text = coding.ofJson? value := by
  rw [decode?, Spells.read presented, Option.bind_some]

/-- The members on the line that a value is written on. -/
def Writes (coding : Coding α) (value : α) (members : List (List Part × Json)) : Prop :=
  Presents (.object members) (coding.lineText value)

/-- What stands around the members of a value does not matter, and neither does their order.
But a known name that is repeated and a required name that is dropped do. -/
structure IgnoresPresentation (coding : Coding α) (Valid : α → Prop)
    (known required : List String) (Tolerated : Json → Prop) : Prop where
  /-- Every value has a line, with known names only. -/
  written : ∀ value, ∃ members, coding.Writes value members ∧
    ∀ member ∈ members, ∃ name ∈ known, joinParts member.1 = some name.toList
  /-- The members of the line may stand in any order, with foreign ones among them. -/
  decoded : ∀ value members inserted shuffled text, Valid value → coding.Writes value members →
    (∀ member ∈ inserted, IsForeign known member ∧ Tolerated member.2) →
    shuffled.Perm (members ++ inserted) → Presents (.object shuffled) text →
    coding.decode? text = some value
  /-- No more foreign members are tolerated than those. -/
  refused : ∀ members text, Presents (.object members) text →
    ∀ member ∈ members, IsForeign known member → ¬ Tolerated member.2 →
    coding.decode? text = none
  repeated : ∀ members text, Presents (.object members) text →
    ∀ name ∈ known, 2 ≤ (valuesNamed name members).length → coding.decode? text = none
  dropped : ∀ members text, Presents (.object members) text →
    ∀ name ∈ required, valuesNamed name members = [] → coding.decode? text = none

/-- Any foreign value is ignored, and the row of the values alone, in the order in which
they are written, is as good as the object. -/
structure IgnoresShape (coding : Coding α) (Valid : α → Prop) (known required : List String) :
    Prop extends coding.IgnoresPresentation Valid known required fun _ => True where
  row_decoded : ∀ value members text, Valid value → coding.Writes value members →
    Presents (.array (members.map Prod.snd)) text → coding.decode? text = some value

theorem writes_iff {value : α} {members : List (String × Json)}
    (written : coding.toJson value = .ofMembers members)
    (plain : ∀ member ∈ members, member.2.IsPlain) {shown : List (List Part × Json)} :
    coding.Writes value shown ↔ shown = membersRead members := by
  have line : Presents (.object (membersRead members)) (coding.lineText value) := by
    rw [lineText, written]
    exact presents_compact plain
  constructor
  · intro writes
    have read := Spells.read writes
    rw [Spells.read line] at read
    cases read
    rfl
  · rintro rfl
    exact line

/-- What is read of a value that was written. -/
theorem IsFaithful.ofJson?_written (faithful : coding.IsFaithful Valid) {value : α}
    (valid : Valid value) {members : List (List Part × Json)}
    (writes : coding.Writes value members) :
    coding.ofJson? (.object members) = some value := by
  rw [← decode?_of_presents writes, faithful.line_decodes value valid]

/-- What a decoder makes of a value depends on the fields with these names, of which some
have to be there. -/
structure ReadsFields (coding : Coding α) (names required : List String) (least : Nat) :
    Prop where
  congr : ∀ {first second : Json}, fields? names least first = fields? names least second →
    coding.ofJson? first = coding.ofJson? second
  refused : ∀ {value : Json}, fields? names least value = none → coding.ofJson? value = none
  lacking : ∀ {value : Json} {field : String → Option Json},
    fields? names least value = some (names.map field) →
    ∀ name ∈ required, field name = none → coding.ofJson? value = none

/-- Every value is written with all the fields, each once. -/
structure WritesFields (coding : Coding α) (names : List String) : Prop where
  distinct : names.Nodup
  written : ∀ value, ∃ members, coding.toJson value = .ofMembers members ∧
    members.map Prod.fst = names ∧ ∀ member ∈ members, member.2.IsPlain

variable {names required : List String} {least : Nat}

theorem ReadsFields.ignoresPresentation (reads : coding.ReadsFields names required least)
    (writes : coding.WritesFields names) (needed : required ⊆ names)
    (faithful : coding.IsFaithful Valid) :
    coding.IgnoresPresentation Valid names required fun _ => True := by
  constructor
  case written =>
    intro value
    obtain ⟨members, written, rfl, plain⟩ := writes.written value
    exact ⟨_, (writes_iff written plain).mpr rfl, named_membersRead members⟩
  case decoded =>
    intro value shown inserted shuffled text valid line foreign same presented
    have object := faithful.ofJson?_written valid line
    obtain ⟨members, written, rfl, plain⟩ := writes.written value
    obtain rfl := (writes_iff written plain).mp line
    have once := objectFields?_membersRead writes.distinct (members.map Prod.fst)
    have found := objectFields?_shuffled once same (List.Subset.refl _)
      fun member here => (foreign member here).1
    rw [decode?_of_presents presented, ← object]
    exact reads.congr (found.trans once.symm)
  case refused => exact fun _ _ _ _ _ _ intolerable => absurd trivial intolerable
  case repeated =>
    intro shown text presented name wanted repeated
    rw [decode?_of_presents presented]
    exact reads.refused (objectFields?_repeated wanted repeated)
  case dropped =>
    intro shown text presented name wanted dropped
    rw [decode?_of_presents presented]
    cases found : objectFields? names shown with
    | none => exact reads.refused found
    | some fields =>
        obtain ⟨field, rfl, absent⟩ := objectFields?_dropped found
        exact reads.lacking found name wanted (absent name (needed wanted) dropped)

/-- The fields of a record stand in the row of its values as they do in the object. -/
theorem fields?_row {written : List (String × Json)} (distinct : (written.map Prod.fst).Nodup)
    (enough : least ≤ written.length) :
    fields? (written.map Prod.fst) least (.array ((membersRead written).map Prod.snd)) =
      fields? (written.map Prod.fst) least (.object (membersRead written)) := by
  have looked : ∀ member ∈ written, written.lookup member.1 = some member.2 :=
    fun member here => lookup_of_mem distinct here
  have same : (written.map Prod.fst).map (fun name => (written.lookup name).map reread) =
      ((membersRead written).map Prod.snd).map some := by
    simp only [membersRead, List.map_map, Function.comp_def]
    exact List.map_congr_left fun member here => by rw [looked member here, Option.map_some]
  simp only [fields?]
  rw [objectFields?_membersRead distinct, same]
  simp [membersRead, enough]

theorem ReadsFields.ignoresShape (reads : coding.ReadsFields names required least)
    (writes : coding.WritesFields names) (needed : required ⊆ names)
    (enough : least ≤ names.length) (faithful : coding.IsFaithful Valid) :
    coding.IgnoresShape Valid names required := by
  refine ⟨reads.ignoresPresentation writes needed faithful, ?_⟩
  intro value shown text valid line presented
  have object := faithful.ofJson?_written valid line
  obtain ⟨members, written, rfl, plain⟩ := writes.written value
  obtain rfl := (writes_iff written plain).mp line
  rw [decode?_of_presents presented, ← object]
  exact reads.congr (fields?_row writes.distinct (by rwa [List.length_map] at enough))

theorem readsFields_of_bind {ofFields? : List (Option Json) → Option α}
    (read : ∀ value, coding.ofJson? value = (fields? names least value).bind ofFields?)
    (lacking : ∀ field : String → Option Json, ∀ name ∈ required, field name = none →
      ofFields? (names.map field) = none) :
    coding.ReadsFields names required least := by
  constructor
  case congr =>
    intro first second same
    rw [read, read, same]
  case refused =>
    intro value missing
    rw [read, missing, Option.bind_none]
  case lacking =>
    intro value field found name wanted absent
    rw [read, found, Option.bind_some, lacking field name wanted absent]

end Coding

namespace Identity

def fieldNames : List String := ["global_seed", "agent_id"]

theorem writesFields : coding.WritesFields fieldNames :=
  ⟨by decide, fun _ => ⟨_, rfl, rfl, by simp⟩⟩

theorem readsFields : coding.ReadsFields fieldNames fieldNames 2 := by
  refine Coding.readsFields_of_bind (fun _ => rfl) fun field name wanted absent => ?_
  simp only [fieldNames, List.mem_cons, List.not_mem_nil, or_false] at wanted
  rcases wanted with rfl | rfl <;> simp [fieldNames, required, absent]

theorem ignoresShape : coding.IgnoresShape (fun _ => True) fieldNames fieldNames :=
  readsFields.ignoresShape writesFields (List.Subset.refl _) (by decide) isFaithful

end Identity

namespace Hashrate

def fieldNames : List String := ["hashrate_per_second"]

theorem writesFields : coding.WritesFields fieldNames :=
  ⟨by decide, fun _ => ⟨_, rfl, rfl, by simp⟩⟩

theorem readsFields : coding.ReadsFields fieldNames fieldNames 1 := by
  refine Coding.readsFields_of_bind (fun _ => rfl) fun field name wanted absent => ?_
  obtain rfl := List.mem_singleton.mp wanted
  simp [fieldNames, required, absent]

theorem ignoresShape : coding.IgnoresShape (fun _ => True) fieldNames fieldNames :=
  readsFields.ignoresShape writesFields (List.Subset.refl _) (by decide) isFaithful

end Hashrate

namespace Context

def fieldNames : List String :=
  ["wallet_address", "threads_count", "background_mining", "ignore_battery"]

theorem writesFields : coding.WritesFields fieldNames :=
  ⟨by decide, fun _ => ⟨_, rfl, rfl, by simp⟩⟩

theorem readsFields : coding.ReadsFields fieldNames fieldNames 4 := by
  refine Coding.readsFields_of_bind (fun _ => rfl) fun field name wanted absent => ?_
  simp only [fieldNames, List.mem_cons, List.not_mem_nil, or_false] at wanted
  rcases wanted with rfl | rfl | rfl | rfl <;> simp [fieldNames, required, absent]

theorem ignoresShape : coding.IgnoresShape (fun _ => True) fieldNames fieldNames :=
  readsFields.ignoresShape writesFields (List.Subset.refl _) (by decide) isFaithful

end Context

namespace Block

def fieldNames : List String := ["agent_id", "height", "nonce", "timestamp_ns", "difficulty"]

theorem writesFields : coding.WritesFields fieldNames :=
  ⟨by decide, fun _ => ⟨_, rfl, rfl, by simp⟩⟩

theorem readsFields : coding.ReadsFields fieldNames fieldNames 5 := by
  refine Coding.readsFields_of_bind (fun _ => rfl) fun field name wanted absent => ?_
  simp only [fieldNames, List.mem_cons, List.not_mem_nil, or_false] at wanted
  rcases wanted with rfl | rfl | rfl | rfl | rfl <;> simp [fieldNames, required, absent]

theorem ignoresShape : coding.IgnoresShape (fun _ => True) fieldNames fieldNames :=
  readsFields.ignoresShape writesFields (List.Subset.refl _) (by decide) isFaithful

end Block

/-! ## Counters and reports -/

namespace Tally

theorem writesFields : coding.WritesFields fieldNames :=
  ⟨by decide, fun _ => ⟨_, rfl, rfl, by simp [members]⟩⟩

theorem ofFields?_lacking {field : String → Option Json} {name : String}
    (wanted : name ∈ fieldNames) (absent : field name = none) :
    ofFields? (fieldNames.map field) = none := by
  simp only [fieldNames, List.mem_cons, List.not_mem_nil, or_false] at wanted
  rcases wanted with rfl | rfl | rfl | rfl | rfl | rfl <;>
    simp [fieldNames, ofFields?, required, absent]

theorem readsFields : coding.ReadsFields fieldNames fieldNames 6 :=
  Coding.readsFields_of_bind (fun _ => rfl) fun _ _ wanted absent =>
    ofFields?_lacking wanted absent

theorem ignoresShape : coding.IgnoresShape (fun _ => True) fieldNames fieldNames :=
  readsFields.ignoresShape writesFields (List.Subset.refl _) (by decide) isFaithful

end Tally

namespace Report

/-- The names of a report's own members and of the counters between them. -/
def fieldNames : List String := ownNames ++ Tally.fieldNames

/-- The names of all members but the mean time, which a report without blocks lacks. -/
def requiredNames : List String := ["agent_id", "hashrate"] ++ Tally.fieldNames

/-- Whether a foreign value can be held back. -/
def Holds (value : Json) : Prop := value.isSound ∧ value.depth ≤ nestingLimit

theorem holds_integer_iff (negative : Bool) (magnitude : Nat) :
    Holds (.number (.ofInteger negative magnitude)) ↔
      (Magnitude.ofNumeral (.ofInteger negative magnitude)).isFinite := by
  simp [Holds, isSound, depth]

variable {members inserted shuffled : List (List Part × Json)}

theorem members_named (report : Report) : report.members.map Prod.fst ⊆ fieldNames := by
  unfold Report.members
  split <;> simp [Tally.members, fieldNames, ownNames, Tally.fieldNames]

theorem canHoldBack_shuffled (words : canHoldBack members)
    (foreign : ∀ member ∈ inserted, IsForeign fieldNames member ∧ Holds member.2)
    (same : shuffled.Perm (members ++ inserted)) : canHoldBack shuffled := by
  simp only [canHoldBack, List.all_eq_true] at words ⊢
  intro member here
  rcases List.mem_append.mp (same.mem_iff.mp here) with old | new
  · exact words member old
  · obtain ⟨_, sound, shallow⟩ := foreign member new
    simp [sound, shallow]

theorem canHoldBack_foreign {member : List Part × Json} (here : member ∈ members)
    (foreign : IsForeign fieldNames member) (intolerable : ¬ Holds member.2) :
    canHoldBack members = false := by
  obtain ⟨name, spelled, unknown⟩ := foreign
  have other : name ∉ ownNames := fun own => unknown (List.mem_append_left _ own)
  simp only [canHoldBack, List.all_eq_false]
  refine ⟨member, here, ?_⟩
  simpa [spelled, other] using fun sound deep => intolerable ⟨sound, deep⟩

theorem ofJson?_congr {first second : List (List Part × Json)}
    (held : canHoldBack first = canHoldBack second)
    (own : objectFields? ownNames first = objectFields? ownNames second)
    (counters : objectFields? Tally.fieldNames first = objectFields? Tally.fieldNames second) :
    ofJson? (.object first) = ofJson? (.object second) := by
  simp only [ofJson?, held, own, counters]

theorem ofJson?_of_own (missing : objectFields? ownNames members = none) :
    ofJson? (.object members) = none := by
  simp [ofJson?, missing]

theorem ofJson?_lacking {name : String} (wanted : name ∈ ["agent_id", "hashrate"])
    (dropped : valuesNamed name members = []) : ofJson? (.object members) = none := by
  cases found : objectFields? ownNames members with
  | none => exact ofJson?_of_own found
  | some fields =>
      obtain ⟨field, rfl, absent⟩ := objectFields?_dropped found
      have absent := absent name (List.mem_of_mem_take (i := 2) wanted) dropped
      simp only [ofJson?]
      rw [found]
      simp only [List.mem_cons, List.not_mem_nil, or_false] at wanted
      rcases wanted with rfl | rfl <;> simp [ownNames, required, absent]

theorem ofJson?_of_counters
    (missing : (objectFields? Tally.fieldNames members).bind Tally.ofFields? = none) :
    ofJson? (.object members) = none := by
  cases found : objectFields? ownNames members with
  | none => exact ofJson?_of_own found
  | some fields =>
      obtain ⟨field, rfl, _⟩ := objectFields?_dropped found
      simp only [ofJson?]
      rw [found]
      simp [ownNames, missing]

theorem ignoresPresentation :
    coding.IgnoresPresentation (fun _ => True) fieldNames requiredNames Holds := by
  have line (report : Report) {shown : List (List Part × Json)} :
      coding.Writes report shown ↔ shown = membersRead report.members :=
    Coding.writes_iff (toJson_eq report) fun member here =>
      (members_words report member here).isPlain
  constructor
  case written =>
    intro report
    refine ⟨_, (line report).mpr rfl, fun member here => ?_⟩
    obtain ⟨name, among, spelled⟩ := named_membersRead report.members member here
    exact ⟨name, members_named report among, spelled⟩
  case decoded =>
    intro report shown inserted shuffled text valid writes foreign same presented
    have object := isFaithful.ofJson?_written valid writes
    obtain rfl := (line report).mp writes
    have own := objectFields?_membersRead report.members_distinct ownNames
    have counters := objectFields?_membersRead report.members_distinct Tally.fieldNames
    have unknown : ∀ member ∈ inserted, IsForeign fieldNames member :=
      fun member here => (foreign member here).1
    have held := canHoldBack_membersRead report.members_words
    rw [Coding.decode?_of_presents presented, ← object]
    refine ofJson?_congr ((canHoldBack_shuffled held foreign same).trans held.symm) ?_ ?_
    · rw [own]
      exact objectFields?_shuffled own same (List.subset_append_left _ _) unknown
    · rw [counters]
      exact objectFields?_shuffled counters same (List.subset_append_right _ _) unknown
  case refused =>
    intro shown text presented member here foreign intolerable
    rw [Coding.decode?_of_presents presented]
    simp [coding, ofJson?, canHoldBack_foreign here foreign intolerable]
  case repeated =>
    intro shown text presented name wanted repeated
    rw [Coding.decode?_of_presents presented]
    rcases List.mem_append.mp wanted with own | counter
    · exact ofJson?_of_own (objectFields?_repeated own repeated)
    · refine ofJson?_of_counters ?_
      rw [objectFields?_repeated counter repeated, Option.bind_none]
  case dropped =>
    intro shown text presented name wanted dropped
    rw [Coding.decode?_of_presents presented]
    rcases List.mem_append.mp wanted with own | counter
    · exact ofJson?_lacking own dropped
    · refine ofJson?_of_counters ?_
      cases found : objectFields? Tally.fieldNames shown with
      | none => rfl
      | some fields =>
          obtain ⟨field, rfl, absent⟩ := objectFields?_dropped found
          exact Tally.ofFields?_lacking counter (absent name counter dropped)

end Report

namespace Settings

def fieldNames : List String :=
  ["miner_hashrate", "agent_id", "simulation_seed", "log_level", "log_file", "metrics_file",
   "error_metrics_file", "report_interval_secs"]

def requiredNames : List String := ["miner_hashrate", "agent_id", "simulation_seed"]

theorem writesFields : coding.WritesFields fieldNames :=
  ⟨by decide, fun _ => ⟨_, rfl, rfl, by simp⟩⟩

theorem readsFields : coding.ReadsFields fieldNames requiredNames 7 := by
  constructor
  case congr =>
    intro first second same
    simp only [coding, ofJson?, Draft.ofJson?]
    rw [← fieldNames, same]
  case refused =>
    intro value missing
    simp only [coding, ofJson?, Draft.ofJson?]
    rw [← fieldNames, missing]
    rfl
  case lacking =>
    intro value field found name wanted absent
    simp only [coding, ofJson?, Draft.ofJson?]
    rw [← fieldNames, found]
    simp only [requiredNames, List.mem_cons, List.not_mem_nil, or_false] at wanted
    rcases wanted with rfl | rfl | rfl <;>
      simp [fieldNames, absent, Option.bind_assoc, Draft.complete_lacking]

theorem ignoresShape : coding.IgnoresShape IsValid fieldNames requiredNames :=
  readsFields.ignoresShape writesFields (by simp [requiredNames, fieldNames]) (by decide) isFaithful

end Settings

/-- However the members of a record are presented, the text holds the record: in any order,
among any foreign members, with white space around the tokens, and for all but reports as
a row of values.  A known name that is repeated spoils every text, as does a required one
that is dropped.  A report ignores the foreign members that it can hold back and is refused
with any other; whole numbers below `10 ^ 308` can be held back, those from `10 ^ 309` on
cannot. -/
theorem decoding_ignores_presentation :
    Identity.coding.IgnoresShape (fun _ => True) Identity.fieldNames Identity.fieldNames ∧
      Hashrate.coding.IgnoresShape (fun _ => True) Hashrate.fieldNames Hashrate.fieldNames ∧
      Context.coding.IgnoresShape (fun _ => True) Context.fieldNames Context.fieldNames ∧
      Block.coding.IgnoresShape (fun _ => True) Block.fieldNames Block.fieldNames ∧
      Tally.coding.IgnoresShape (fun _ => True) Tally.fieldNames Tally.fieldNames ∧
      Settings.coding.IgnoresShape Settings.IsValid Settings.fieldNames Settings.requiredNames ∧
      Report.coding.IgnoresPresentation (fun _ => True) Report.fieldNames Report.requiredNames
        Report.Holds ∧
      (∀ negative magnitude, Report.Holds (.number (.ofInteger negative magnitude)) ↔
        (Magnitude.ofNumeral (.ofInteger negative magnitude)).isFinite) ∧
      (∀ negative magnitude, magnitude < 10 ^ 308 →
        Report.Holds (.number (.ofInteger negative magnitude))) ∧
      ∀ negative magnitude, 10 ^ 309 ≤ magnitude →
        ¬ Report.Holds (.number (.ofInteger negative magnitude)) := by
  refine ⟨Identity.ignoresShape, Hashrate.ignoresShape, Context.ignoresShape,
    Block.ignoresShape, Tally.ignoresShape, Settings.ignoresShape, Report.ignoresPresentation,
    Report.holds_integer_iff, fun negative magnitude small => ?_,
    fun negative magnitude large held => ?_⟩
  · exact (Report.holds_integer_iff negative magnitude).mpr (isFinite_ofInteger negative small)
  · have finite := (Report.holds_integer_iff negative magnitude).mp held
    rw [not_isFinite_ofInteger negative large] at finite
    cases finite

namespace Report

def sample : Report := ⟨7, 1000, ⟨1, 2, 3, 4, 5, 6⟩, none⟩

/-- The members of the sample from the last to the first, behind a foreign one. -/
def rearranged : List (String × Json) := ("x", .ofNat 12) :: sample.members.reverse

/-- The members of the sample in front of a foreign whole number of 310 digits. -/
def overlong : List (String × Json) := sample.members ++ [("x", .ofNat (10 ^ 309))]

theorem sample_written : coding.Writes sample (membersRead sample.members) :=
  (Coding.writes_iff rfl fun member here => (members_words sample member here).isPlain).mpr rfl

theorem isForeign_x (value : Json) : ∀ member ∈ membersRead [("x", value)],
    IsForeign fieldNames member := by
  intro member here
  obtain rfl := List.mem_singleton.mp here
  exact ⟨"x", joinParts_reread _, by decide⟩

end Report

theorem sample_decoded_rearranged :
    Report.coding.decode? ("\n\t" ++ (Json.ofMembers Report.rearranged).compact ++ " \r") =
      some Report.sample := by
  obtain ⟨_, _, _, _, _, _, reports, _, tolerated, _⟩ := decoding_ignores_presentation
  refine reports.decoded Report.sample _ (membersRead [("x", .ofNat 12)]) _ _ trivial
    Report.sample_written (fun member here => ⟨Report.isForeign_x _ member here, ?_⟩) ?_
    ((presents_compact ?_).padded ?_ ?_)
  case refine_1 =>
    obtain rfl := List.mem_singleton.mp here
    exact tolerated false 12 (by decide +kernel)
  case refine_2 =>
    rw [← membersRead_append]
    exact ((Report.sample.members.reverse_perm.cons _).trans
      (List.perm_append_singleton _ _).symm).map _
  case refine_3 =>
    simp [Report.rearranged, Report.sample, Report.members, Tally.members, IsPlain.ofNat]
  case refine_4 => simp [blanks]
  case refine_5 => simp [blanks]

/-- A whole number that no double holds is foreign to a report, and yet it is not ignored. -/
theorem overlong_report_refused :
    Report.coding.Writes Report.sample (membersRead Report.sample.members) ∧
      (∀ member ∈ membersRead [("x", .ofNat (10 ^ 309))], IsForeign Report.fieldNames member) ∧
      Presents (.object (membersRead Report.sample.members ++
        membersRead [("x", .ofNat (10 ^ 309))])) (Json.ofMembers Report.overlong).compact ∧
      Report.coding.decode? (Json.ofMembers Report.overlong).compact = none := by
  have plain : ∀ member ∈ Report.overlong, member.2.IsPlain := by
    intro member here
    rcases List.mem_append.mp here with own | foreign
    · exact (Report.members_words Report.sample member own).isPlain
    · obtain rfl := List.mem_singleton.mp foreign
      exact .ofNat _
  have presented : Presents (.object (membersRead Report.sample.members ++
      membersRead [("x", .ofNat (10 ^ 309))])) (Json.ofMembers Report.overlong).compact := by
    rw [← membersRead_append]
    exact presents_compact plain
  refine ⟨Report.sample_written, Report.isForeign_x _, presented, ?_⟩
  refine Report.ignoresPresentation.refused _ _ presented _
    (List.mem_append_right _ (List.mem_singleton.mpr rfl)) ?_ fun held => ?_
  · exact Report.isForeign_x _ _ (List.mem_singleton.mpr rfl)
  · have finite := (Report.holds_integer_iff false (10 ^ 309)).mp held
    rw [not_isFinite_ofInteger false (Nat.le_refl _)] at finite
    cases finite

end MiningAgent
