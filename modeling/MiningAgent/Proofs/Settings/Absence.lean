import MiningAgent.Proofs.Settings.Acceptance
import Mathlib.Data.List.Infix

/-!
# Missing variables

All required variables that are not set are told at once, but only if those that are set can
be parsed: a malformed variable is told in their place.
-/

namespace MiningAgent

/-- A fault whose message holds a name. -/
def Fault.Mentions (fault : Fault) (name : String) : Prop :=
  name.toList <:+: fault.message.toList

instance (fault : Fault) (name : String) : Decidable (fault.Mentions name) :=
  inferInstanceAs (Decidable (name.toList <:+: fault.message.toList))

/-- Each of several texts is part of the whole that they make up with a mark between them. -/
theorem infix_intercalate {mark text : List Char} {texts : List (List Char)}
    (member : text ∈ texts) : text <:+: mark.intercalate texts := by
  induction texts with
  | nil => cases member
  | cons first rest hypothesis =>
      cases rest with
      | nil =>
          rw [List.mem_singleton.mp member, List.intercalate_singleton]
      | cons second others =>
          rw [List.intercalate_cons_cons]
          rcases List.mem_cons.mp member with rfl | later
          · exact ((List.prefix_append _ _).trans (List.prefix_append _ _)).isInfix
          · exact (hypothesis later).trans (List.suffix_append _ _).isInfix

theorem infix_append {text whole : String} (front : String)
    (inside : text.toList <:+: whole.toList) : text.toList <:+: (front ++ whole).toList := by
  rw [String.toList_append]
  exact inside.trans (List.suffix_append _ _).isInfix

namespace Settings

variable {upper : Char → List Char} {environment : Environment}

theorem mentions_missing {names : List String} {name : String} (member : name ∈ names) :
    (Fault.configuration (.missing names)).Mentions name := by
  have listed : name.toList <:+: (", ".intercalate names).toList := by
    rw [String.toList_intercalate]
    exact infix_intercalate (List.mem_map_of_mem member)
  exact infix_append "Configuration error: " (infix_append "Missing required settings: " listed)

theorem not_acceptable_of_absent (lacks : environment.absent ≠ []) :
    ¬ environment.Acceptable upper := by
  rintro ⟨⟨hashrate, hashrateSet, -⟩, ⟨agentId, agentIdSet, -⟩, ⟨seed, seedSet, -⟩, -⟩
  refine lacks ?_
  simp [Environment.absent, Variable.required, hashrateSet, agentIdSet, seedSet]

/-- What is told of variables of which a required one is not set: the names of all that are
not set, if the others can be parsed, and otherwise the first that cannot. -/
theorem absences_told_of_parsed (uppercase : Text.IsUpperCase upper)
    (lacks : environment.absent ≠ []) :
    ((∀ setting text, ¬ environment.Malformed upper setting text) →
      ∃ fault, ofVariables environment = .error (.configuration fault) ∧
        fault = .missing (environment.absent.map Variable.name) ∧
        ∀ setting ∈ environment.absent, (Fault.configuration fault).Mentions setting.name) ∧
    ((∃ setting text, environment.Malformed upper setting text) →
      ∃ setting text reason, environment.FirstMalformed upper setting text ∧
        ofVariables environment = .error (.configuration (.invalid setting.name text reason))) := by
  constructor
  · intro sound
    have told := ofVariables_refused uppercase sound fun settings resolved => by
      have holds := (ofVariables_eq_ok_iff_holds uppercase).mp resolved
      exact not_acceptable_of_absent lacks (exists_holds_iff.mp ⟨settings, holds⟩)
    rw [if_neg lacks] at told
    exact ⟨_, told, rfl, fun setting absent => mentions_missing (List.mem_map_of_mem absent)⟩
  · intro malformed
    obtain ⟨setting, text, first⟩ := Environment.exists_firstMalformed malformed
    obtain ⟨reason, told⟩ := first.ofVariables uppercase
    exact ⟨setting, text, reason, first, told⟩

def numbered : Environment
  | .agentId => some "4"
  | _ => none

theorem absences_told_of_numbered :
    numbered.absent = [.hashrate, .seed] ∧
      ∃ fault, ofVariables numbered = .error (.configuration fault) ∧
        (Fault.configuration fault).Mentions "MINER_HASHRATE" ∧
        (Fault.configuration fault).Mentions "SIMULATION_SEED" := by
  have sound : ∀ setting text, ¬ numbered.Malformed Text.upperCase setting text := by
    rintro setting text ⟨set, unworded⟩
    cases setting with
    | agentId =>
        cases set
        exact unworded ((Environment.parses_agentId "4").mpr ⟨4, by decide⟩)
    | _ => cases set
  obtain ⟨fault, told, -, mentioned⟩ :=
    (absences_told_of_parsed Text.isUpperCase_upperCase (by decide)).1 sound
  exact ⟨by decide, fault, told, mentioned .hashrate (by decide), mentioned .seed (by decide)⟩

/-- Variables of which one is no number and the other required ones are not set. -/
def hidden : Environment
  | .hashrate => some "fast"
  | _ => none

/-- A variable that cannot be parsed hides those that are missing. -/
theorem absences_hidden_by_malformed :
    ¬ ∀ environment : Environment, environment.absent ≠ [] →
      ∃ fault, ofVariables environment = .error (.configuration fault) ∧
        ∀ setting ∈ environment.absent, (Fault.configuration fault).Mentions setting.name := by
  intro together
  obtain ⟨fault, told, mentioned⟩ := together hidden (by decide)
  have invalid : ofVariables hidden = .error (.configuration
      (.invalid "MINER_HASHRATE" "fast" (.number .invalidDigit))) := by decide +kernel
  rw [invalid] at told
  cases told
  exact absurd (mentioned .agentId (by decide)) (by decide +kernel)

end Settings

end MiningAgent
