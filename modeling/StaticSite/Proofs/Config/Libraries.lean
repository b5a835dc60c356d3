import StaticSite.Config.Bundled
import StaticSite.Config.Standard
import StaticSite.Proofs.Schema
import StaticSite.Proofs.Value.Document

/-!
# What libraries are relied on for

Two things are asked of libraries. What a reader gives is proper (`ReadsProper`): the keys of its
mappings can be keys, and no two of them are the same. And a validator that finds nothing wrong with
a configuration has held each rule of the schema against it (`ChecksRules`). The standard libraries
are such (`readsProper_standard`, `checksRules_standard`): their validator collects violations with
their messages, and it finds none if and only if the schema is satisfied (`violations_eq_nil_iff`).
-/

namespace StaticSite

namespace Schema

variable {named : List String} {v : Value} {entries : Mapping}

/-- There is one violation unless a condition holds. -/
theorem orSay_eq_nil_iff {holds : Bool} {message : String} :
    orSay holds message = [] ↔ holds = true := by
  cases holds <;> simp [orSay]

/-- Nothing is reported of the members of a list if and only if nothing is to be reported of any. -/
theorem flatMap_zipIdx_eq_nil_iff {α β : Type} {l : List α} {f : α → List β} {g : β → Nat → β} :
    (l.zipIdx.flatMap fun e => (f e.1).map fun b => g b e.2) = [] ↔ ∀ m ∈ l, f m = [] := by
  simp only [List.flatMap_eq_nil_iff, List.map_eq_nil_iff]
  constructor
  · intro h m hm
    obtain ⟨i, hi, rfl⟩ := List.getElem_of_mem hm
    exact h (l[i], i) (List.mem_zipIdx_iff_getElem?.2 (List.getElem?_eq_getElem hi))
  · intro h e he
    exact h e.1 (List.fst_mem_of_mem_zipIdx he)

mutual

/-- Nothing is reported of a rule if and only if it is satisfied. -/
theorem ruleViolations_eq_nil_iff (named : List String) (v : Value) : (r : Rule) →
    (ruleViolations named v r = [] ↔ ruleAllows named v r = true)
  | .shapes l => by rw [ruleViolations, ruleAllows, orSay_eq_nil_iff]
  | .oneOfTexts l => by rw [ruleViolations, ruleAllows, orSay_eq_nil_iff]
  | .required l => by
    cases v with
    | mapping entries =>
      simp only [ruleViolations, ruleAllows, List.flatMap_eq_nil_iff, orSay_eq_nil_iff,
        List.all_eq_true]
    | _ => simp [ruleViolations, ruleAllows]
  | .properties fields => by
    cases v with
    | mapping entries =>
      rw [ruleViolations, ruleAllows]
      exact fieldViolations_eq_nil_iff entries fields
    | _ => simp [ruleViolations, ruleAllows]
  | .others s => by
    cases v with
    | mapping entries =>
      simp only [ruleViolations, ruleAllows, List.flatMap_eq_nil_iff, List.map_eq_nil_iff,
        List.all_eq_true, rulesViolations_eq_nil_iff (namedKeys s) _ s]
    | _ => simp [ruleViolations, ruleAllows]
  | .noOthers => by
    cases v with
    | mapping entries => rw [ruleViolations, ruleAllows, orSay_eq_nil_iff, List.isEmpty_map]
    | _ => simp [ruleViolations, ruleAllows]
  | .items s => by
    cases v with
    | list members =>
      rw [ruleViolations, ruleAllows, List.all_eq_true]
      have hmembers :=
        flatMap_zipIdx_eq_nil_iff (l := members) (f := fun m => rulesViolations (namedKeys s) m s)
          (g := fun b i => b.within (.int i))
      exact hmembers.trans (forall₂_congr fun m _ => rulesViolations_eq_nil_iff (namedKeys s) m s)
    | _ => simp [ruleViolations, ruleAllows]
  | .leastLength n => by
    cases v with
    | text t => rw [ruleViolations, ruleAllows, orSay_eq_nil_iff]
    | _ => simp [ruleViolations, ruleAllows]
  | .least n => by rw [ruleViolations, ruleAllows, orSay_eq_nil_iff]
  | .exactlyOne choices => by
    -- Choices are counted where they are allowed, and told one by one where they are violated.
    rw [ruleViolations, ruleAllows, ← length_satisfied v choices, beq_iff_eq]
    rcases satisfied v choices with _ | ⟨first, _ | ⟨second, more⟩⟩ <;> simp
  | .never s => by
    rw [ruleViolations, ruleAllows, orSay_eq_nil_iff, Bool.not_eq_true', Bool.not_eq_true',
      ← Bool.not_eq_true, ← Bool.not_eq_true, List.isEmpty_iff,
      rulesViolations_eq_nil_iff (namedKeys s) v s]
  | .shared _ s => by
    rw [ruleViolations, ruleAllows]
    exact rulesViolations_eq_nil_iff (namedKeys s) v s
  | .note _ _ => by simp [ruleViolations, ruleAllows]

/-- Nothing is reported of some rules if and only if they are satisfied. -/
theorem rulesViolations_eq_nil_iff (named : List String) (v : Value) : (s : List Rule) →
    (rulesViolations named v s = [] ↔ rulesAllow named v s = true)
  | [] => by simp [rulesViolations, rulesAllow]
  | r :: rest => by
    rw [rulesViolations, rulesAllow, List.append_eq_nil_iff, Bool.and_eq_true,
      ruleViolations_eq_nil_iff named v r, rulesViolations_eq_nil_iff named v rest]

/-- Nothing is reported of the values of keys if and only if they satisfy the schemas for them. -/
theorem fieldViolations_eq_nil_iff (entries : Mapping) : (fields : List (String × List Rule)) →
    (fieldViolations entries fields = [] ↔ fieldsAllow entries fields = true)
  | [] => by simp [fieldViolations, fieldsAllow]
  | (key, s) :: rest => by
    rw [fieldViolations, fieldsAllow]
    cases Mapping.find? entries key with
    | none => exact fieldViolations_eq_nil_iff entries rest
    | some m =>
      rw [List.append_eq_nil_iff, List.map_eq_nil_iff, Bool.and_eq_true,
        rulesViolations_eq_nil_iff (namedKeys s) m s, fieldViolations_eq_nil_iff entries rest]

/-- As many schemas are found satisfied as are. -/
theorem length_satisfied (v : Value) : (choices : List (List Rule)) →
    (satisfied v choices).length = countAllowing v choices
  | [] => by simp [satisfied, countAllowing]
  | s :: rest => by
    have hs := rulesViolations_eq_nil_iff (namedKeys s) v s
    rw [satisfied, countAllowing, ← length_satisfied v rest]
    by_cases h : rulesAllow (namedKeys s) v s = true
    · rw [if_pos h, if_pos (List.isEmpty_iff.2 (hs.2 h)), List.length_cons, Nat.add_comm]
    · rw [if_neg h, if_neg (fun hempty => h (hs.1 (List.isEmpty_iff.1 hempty))), Nat.zero_add]

end

/-- Nothing is reported of a value if and only if it satisfies the schema. -/
theorem violations_eq_nil_iff {s : Schema} : violations v s = [] ↔ s.Accepts v :=
  rulesViolations_eq_nil_iff (namedKeys s) v s

end Schema

namespace Config

/-- What a reader gives is proper. -/
def Libraries.ReadsProper (lib : Libraries) : Prop :=
  ∀ file? bytes v, lib.read file? bytes = .ok v → v.isProper = true

/-- A validator that finds nothing wrong with a value under the schema of configurations has found
each rule of the schema satisfied. -/
def Libraries.ChecksRules (lib : Libraries) : Prop :=
  ∀ v, lib.violations Rules.value v = .ok [] → Rules.configuration.Accepts v

/-- The standard reader gives proper values. -/
theorem Libraries.readsProper_standard : standard.ReadsProper := by
  intro file? bytes v h
  obtain ⟨text, -, h⟩ := bind_eq_ok.1 h
  cases hparse : Yaml.parse text with
  | error fault =>
    rw [hparse] at h
    cases h
  | ok w =>
    rw [hparse] at h
    rw [← Except.ok.inj h]
    exact Yaml.isProper_parse hparse

/-- The standard validator knows the schema of configurations. -/
theorem Libraries.violations_standard (v : Value) :
    standard.violations Rules.value v = Rules.configuration.check v := rfl

/-- The standard validator finds a configuration valid if it satisfies the rules and all that is to
be said on the way can be written. -/
theorem Libraries.violations_standard_eq_nil_iff {v : Value} :
    standard.violations Rules.value v = .ok [] ↔
      Rules.configuration.Accepts v ∧
        Schema.rulesTell (Schema.namedKeys Rules.configuration) v Rules.configuration = true := by
  rw [violations_standard, Schema.check, ← Schema.violations_eq_nil_iff]
  split <;> rename_i h <;> simp [h]

/-- The standard validator holds each rule of the schema against a configuration. -/
theorem Libraries.checksRules_standard : standard.ChecksRules :=
  fun _ h => (violations_standard_eq_nil_iff.1 h).1

/-! ### The check of configurations -/

variable {σ : Type} {s : Session σ} {lib : Libraries} {v : Value}

/-- A configuration is checked against the schema that belongs to the program. -/
theorem check_configuration (lib : Libraries) (s : Session σ) (v : Value) :
    Bundled.check lib s "config.schema" v =
      lib.violations Rules.value v >>= Bundled.refuse "config.schema" := by
  have hname : Bundled.fileName "config.schema" = "config.schema.yaml" := by decide +kernel
  have hload : Bundled.load lib s "config.schema" = .ok Rules.value := by
    unfold Bundled.load
    rw [hname]
    rfl
  rw [Bundled.check, hload, ok_bind]

/-- Nothing is refused if and only if there is no violation. -/
theorem refuse_eq_ok_iff {name : String} {violations : List Violation} :
    Bundled.refuse name violations = .ok () ↔ violations = [] := by
  unfold Bundled.refuse
  split
  · rename_i h
    refine iff_of_false (by simp) ?_
    rintro rfl
    simp at h
  · rw [← List.isEmpty_iff]
    split <;> simp [*]

/-- A configuration passes the check if and only if the validator finds nothing wrong with it. -/
theorem check_eq_ok_iff : Bundled.check lib s "config.schema" v = .ok () ↔
    lib.violations Rules.value v = .ok [] := by
  rw [check_configuration, bind_eq_ok]
  simp only [refuse_eq_ok_iff, exists_eq_right]

end Config

end StaticSite
