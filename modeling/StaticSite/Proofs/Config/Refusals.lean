import StaticSite.Proofs.Config.Layers

/-!
# Configurations that are not loaded

A project's file that cannot be used and a configuration that violates its schema are refused with
faults of their own (`Fault.isRefusal`), whatever reads the file and finds the violations. An
environment whose variables do not find their places is not: an assignment within what is no
mapping, a number of too many digits and a document that is nested too deep end the loading with
whatever fault they meet (`load_outcome`). That is told by the variables alone
(`Environment.IsReadable`), as one names a place within the value of another in `load_crashes`. Nor
is a configuration refused that is nested too deep as a whole (`Source.IsFlat`).
-/

namespace StaticSite

/-- Whether a fault is the refusal of a configuration. -/
def Fault.isRefusal (fault : Fault) : Bool :=
  fault.code? == some "ConfigError" || fault.code? == some "SchemaValidationError"

namespace Config

section

variable {σ : Type} {lib : Libraries} {source : Source} {overrides : Mapping} {s : Session σ}
    {fault : Fault}

/-- Of all paths only one that is too long cannot be looked at. -/
theorem exists_tooLong_of_file? (h : source.file? s = .error fault) :
    source.asked = none ∧ ∃ p, fault = .tree .tooLong p := by
  have hprobe : ∀ p, s.probe p = .error fault → fault = .tree .tooLong p := by
    intro p hp
    unfold Session.probe Tree.probe at hp
    split at hp
    · cases hp
    · cases hp
      rfl
    · cases hp
  have hfirst : ∀ names : List String, firstPresent s source.root names = .error fault →
      ∃ p, fault = .tree .tooLong p := by
    intro names
    induction names with
    | nil => intro h; cases h
    | cons name rest ih =>
      intro h
      rw [firstPresent] at h
      cases hentry : s.probe (source.root.child name) with
      | error fault' =>
        rw [hentry] at h
        obtain rfl := Except.error.inj h
        exact ⟨_, hprobe _ hentry⟩
      | ok found? =>
        rw [hentry, ok_bind] at h
        cases found? with
        | some e => cases h
        | none => exact ih h
  unfold Source.file? at h
  split at h
  · cases h
  · rename_i hasked
    exact ⟨hasked, hfirst _ h⟩

/-- A configuration file that cannot be used is refused. -/
theorem isRefusal_of_loadFile {p : Path} (h : loadFile lib s p = .error fault) :
    fault.isRefusal = true := by
  unfold loadFile at h
  split at h <;> cases h <;> rfl

/-- The project's file is refused, or the path of the project is too long to look for a file
there. -/
theorem fault_of_own {source : Source} (h : source.own lib s = .error fault) :
    fault.isRefusal = true ∨ source.asked = none ∧ ∃ p, fault = .tree .tooLong p := by
  unfold Source.own at h
  cases hfile : source.file? s with
  | error fault' =>
    rw [hfile] at h
    obtain rfl := Except.error.inj h
    exact .inr (exists_tooLong_of_file? hfile)
  | ok file? =>
    rw [hfile, ok_bind] at h
    cases file? with
    | none => cases h
    | some p => exact .inl (isRefusal_of_loadFile h)

/-- A configuration that violates its schema is refused, unless the validator fails or the place of
a violation cannot be written. -/
theorem fault_of_check {v : Value} (h : Bundled.check lib s "config.schema" v = .error fault) :
    fault.isRefusal = true ∨ fault = .unwritableNumber ∨ lib.violations Rules.value v =
      .error fault := by
  rw [check_configuration] at h
  cases hviolations : lib.violations Rules.value v with
  | error fault' =>
    rw [hviolations] at h
    exact .inr (.inr (by rw [← Except.error.inj h]))
  | ok violations =>
    rw [hviolations, ok_bind] at h
    unfold Bundled.refuse at h
    split at h
    · exact .inr (.inl (Except.error.inj h).symm)
    · split at h
      · cases h
      · rw [← Except.error.inj h]
        exact .inl rfl

/-- There is room for the levels of the configuration that the layers of a source make up. -/
def Source.IsFlat (lib : Libraries) (source : Source) (overrides : Mapping)
    (s : Session σ) : Prop :=
  ∀ own said, source.own lib s = .ok own →
    (Environment.read s.place.room.brackets source.environment).result = .ok said →
      (Value.mapping (stacked [overrides, entriesOf said, own])).levels ≤ s.place.room.levels

/-- Without a check a configuration is loaded if and only if the project's file and the environment
can be read and there is room for what they make up. -/
theorem makes_load (lib : Libraries) (source : Source) (overrides : Mapping) (s : Session σ) :
    Makes (load lib source false overrides s).1 ↔
      Makes (source.own lib s) ∧ Environment.IsReadable s.place.room.brackets source.environment ∧
        source.IsFlat lib overrides s := by
  rw [load_fst, ← Environment.makes_read]
  constructor
  · intro h
    obtain ⟨own, hown, h⟩ := makes_bind.1 h
    obtain ⟨said, hsaid, h⟩ := makes_bind.1 h
    obtain ⟨config, hconfig, -⟩ := makes_bind.1 h
    refine ⟨⟨own, hown⟩, ⟨said, hsaid⟩, fun own' said' hown' hsaid' => ?_⟩
    obtain rfl : own = own' := Except.ok.inj (hown.symm.trans hown')
    obtain rfl : said = said' := Except.ok.inj (hsaid.symm.trans hsaid')
    exact (finish_eq_ok_iff.1 hconfig).1
  · rintro ⟨⟨own, hown⟩, ⟨said, hsaid⟩, hflat⟩
    rw [hown, hsaid, ok_bind, ok_bind, finish_eq_ok_iff.2 ⟨hflat own said hown hsaid, rfl⟩]
    exact makes_ok _

/-- Without a check a configuration is loaded if and only if the project's file can be used, where
there is one, the environment can be read, and there is room for what they make up; and a
configuration that is not loaded is refused unless the environment cannot be read, the path of the
project is too long to look for a file there, there is no room for the configuration, or the
validator fails or the place of a violation cannot be written. -/
theorem load_outcome (lib : Libraries) (source : Source) (validate : Bool) (overrides : Mapping)
    (s : Session σ) : (Makes (load lib source false overrides s).1 ↔
      Makes (source.own lib s) ∧ Environment.IsReadable s.place.room.brackets source.environment ∧
        source.IsFlat lib overrides s) ∧
    ∀ fault, (load lib source validate overrides s).1 = .error fault →
      fault.isRefusal = true ∨
      (¬ Environment.IsReadable s.place.room.brackets source.environment ∧
        ((∃ use kind, fault = .misuse use kind) ∨ (∃ digits, fault = .longNumber digits) ∨
          fault = .tooNested)) ∨
      (source.asked = none ∧ ∃ p, fault = .tree .tooLong p) ∨
      (¬ source.IsFlat lib overrides s ∧ fault = .tooNested) ∨
      (validate = true ∧
        (fault = .unwritableNumber ∨ ∃ v, lib.violations Rules.value v = .error fault)) := by
  refine ⟨makes_load lib source overrides s, fun fault h => ?_⟩
  rw [load_fst] at h
  -- One case for each stage of loading: the project's file, the environment, the room and the
  -- check.
  cases hown : source.own lib s with
  | error fault' =>
    rw [hown] at h
    obtain rfl := Except.error.inj h
    rcases fault_of_own hown with hrefusal | htooLong
    · exact .inl hrefusal
    · exact .inr (.inr (.inl htooLong))
  | ok own =>
    rw [hown, ok_bind] at h
    cases hsaid : (Environment.read s.place.room.brackets source.environment).result with
    | error fault' =>
      rw [hsaid] at h
      obtain rfl := Except.error.inj h
      have hreadable : ¬ Environment.IsReadable s.place.room.brackets source.environment := by
        rw [← Environment.makes_read, hsaid]
        exact not_makes_error _
      exact .inr (.inl ⟨hreadable, Environment.fault_of_read hsaid⟩)
    | ok said =>
      rw [hsaid, ok_bind] at h
      by_cases hlevels : (Value.mapping (stacked [overrides, entriesOf said, own])).levels ≤
        s.place.room.levels
      · rw [finish_eq_ok_iff.2 ⟨hlevels, rfl⟩, ok_bind] at h
        cases validate with
        | false => cases h
        | true =>
          dsimp only at h
          rw [if_pos rfl] at h
          cases hcheck : Bundled.check lib s "config.schema"
              (.mapping (layered [overrides, entriesOf said, own])) with
          | error fault' =>
            rw [layered] at hcheck
            rw [hcheck] at h
            obtain rfl := Except.error.inj h
            rcases fault_of_check hcheck with hrefusal | hnumber | hlib
            · exact .inl hrefusal
            · exact .inr (.inr (.inr (.inr ⟨rfl, .inl hnumber⟩)))
            · exact .inr (.inr (.inr (.inr ⟨rfl, .inr ⟨_, hlib⟩⟩)))
          | ok _ =>
            rw [layered] at hcheck
            rw [hcheck] at h
            cases h
      · rw [finish, if_pos (Nat.lt_of_not_le hlevels)] at h
        refine .inr (.inr (.inr (.inl ⟨fun hflat => ?_, (Except.error.inj h).symm⟩)))
        exact hlevels (hflat own said hown hsaid)

end

namespace Sample

/-- A source with two variables, of which one names a place within the text that the other gives. -/
def nestedSource : Source := ⟨root, none, [("PAGEBUNDLER_MODE", "x"), ("PAGEBUNDLER_MODE__A", "1")]⟩

/-- The variables of the sample assign a text and then into it. -/
theorem assignments_nestedSource :
    Environment.assignments nestedSource.environment = [(["mode"], "x"), (["mode", "a"], "1")] := by
  have hsorted : Environment.ownVariables nestedSource.environment = nestedSource.environment :=
    List.mergeSort_of_pairwise (by decide +kernel)
  rw [Environment.assignments, hsorted]
  decide +kernel

/-- Loading the sample fails on the text that is assigned into. -/
theorem load_nestedSource : (load .standard nestedSource false [] session).1 =
    .error (.misuse .assign "str") := by
  have hown : nestedSource.own .standard session = .ok [] := rfl
  have hread : (Environment.read session.place.room.brackets nestedSource.environment).result =
      .error (.misuse .assign "str") := by
    rw [Environment.result_read, assignments_nestedSource]
    rfl
  rw [load_fst, hown, ok_bind, hread]
  rfl

end Sample

open Sample in
/-- The environment of the sample cannot be read, and that ends the loading; without it a
configuration is loaded. -/
theorem load_outcome_sample :
    (load .standard nestedSource false [] session).1 = .error (.misuse .assign "str") ∧
      ¬ Environment.IsReadable session.place.room.brackets nestedSource.environment ∧
      Makes (load .standard { nestedSource with environment := [] } false [] session).1 := by
  have hreadable : Environment.IsReadable session.place.room.brackets [] := by
    have hnone : Environment.assignments [] = [] := by
      simp [Environment.assignments, Environment.ownVariables]
    rw [Environment.IsReadable, hnone]
    exact fun i hi => absurd hi (Nat.not_lt_zero i)
  have hown : Source.own .standard { nestedSource with environment := [] } session = .ok [] := rfl
  have hflat : Source.IsFlat .standard { nestedSource with environment := [] } [] session := by
    intro own said hown' hsaid
    obtain rfl := Except.ok.inj (hown.symm.trans hown')
    have hnone : Environment.assignments [] = [] := by
      simp [Environment.assignments, Environment.ownVariables]
    rw [Environment.result_read, hnone] at hsaid
    rw [← Except.ok.inj hsaid]
    decide +kernel
  refine ⟨load_nestedSource, ?_,
    (load_outcome .standard { nestedSource with environment := [] } false [] session).1.2
      ⟨⟨[], hown⟩, hreadable, hflat⟩⟩
  rcases (load_outcome .standard nestedSource false [] session).2 _ load_nestedSource with
    h | ⟨h, -⟩ | ⟨-, p, h⟩ | ⟨-, h⟩ | ⟨h, -⟩
  · cases h
  · exact h
  · cases h
  · cases h
  · cases h

open Sample in
/-- Where a variable names a place within the text that another one gives, no configuration is
loaded, even without a check, and the fault is not the refusal of one. -/
theorem load_crashes :
    (load .standard nestedSource false [] session).1 = .error (.misuse .assign "str") ∧
      (Fault.misuse .assign "str").isRefusal = false :=
  ⟨load_nestedSource, by decide⟩

end Config

end StaticSite
