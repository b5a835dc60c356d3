import StaticSite.Schema.Basic

/-!
# What satisfies a schema

A value satisfies a schema if it satisfies each rule of it (`Schema.Accepts`, `accepts_iff`). The
meaning of a schema is a computation over its rules and the value together; the lemmas here say for
each kind of rule what it asks for.
-/

namespace StaticSite.Schema

variable {named : List String} {v : Value} {entries : Mapping}

/-- A value satisfies a schema. -/
def Accepts (s : Schema) (v : Value) : Prop := s.accepts v = true

/-- A value satisfies a rule of a schema that names some keys. -/
def Holds (named : List String) (v : Value) (r : Rule) : Prop := ruleAllows named v r = true

instance (s : Schema) (v : Value) : Decidable (s.Accepts v) :=
  inferInstanceAs (Decidable (s.accepts v = true))

/-- A value satisfies some rules if it satisfies each of them. -/
theorem rulesAllow_iff {s : Schema} : rulesAllow named v s = true ↔ ∀ r ∈ s, Holds named v r := by
  induction s with
  | nil => exact iff_of_true rfl fun r hr => (by cases hr)
  | cons r rest ih =>
    show (ruleAllows named v r && rulesAllow named v rest) = true ↔ _
    rw [Bool.and_eq_true, List.forall_mem_cons, ih]
    exact Iff.rfl

/-- A value satisfies a schema if and only if it satisfies each rule of it. -/
theorem accepts_iff {s : Schema} : s.Accepts v ↔ ∀ r ∈ s, Holds (namedKeys s) v r := rulesAllow_iff

/-- A value is of one of some kinds. -/
@[simp] theorem holds_shapes {l : List Shape} :
    Holds named v (.shapes l) ↔ ∃ shape ∈ l, shape.has v = true := by
  show l.any (·.has v) = true ↔ _
  rw [List.any_eq_true]

/-- A value is one of some texts. -/
@[simp] theorem holds_oneOfTexts {l : List String} :
    Holds named v (.oneOfTexts l) ↔ ∃ t ∈ l, v.sameKey (.text t) = true := by
  show (l.any fun t => v.sameKey (.text t)) = true ↔ _
  rw [List.any_eq_true]

/-- A mapping has some keys. -/
@[simp] theorem holds_required {l : List String} :
    Holds named (.mapping entries) (.required l) ↔
      ∀ key ∈ l, ∃ m, Mapping.find? entries key = some m := by
  show (l.all fun key => (Mapping.find? entries key).isSome) = true ↔ _
  rw [List.all_eq_true]
  simp only [Option.isSome_iff_exists]

/-- The values of keys satisfy the schemas for them. -/
theorem fieldsAllow_iff {fields : List (String × Schema)} :
    fieldsAllow entries fields = true ↔
      ∀ field ∈ fields, ∀ m, Mapping.find? entries field.1 = some m → Accepts field.2 m := by
  induction fields with
  | nil => simp [fieldsAllow]
  | cons field rest ih =>
    obtain ⟨key, s⟩ := field
    rw [fieldsAllow, List.forall_mem_cons, ← ih]
    cases Mapping.find? entries key with
    | none => simp
    | some m => simp [Accepts, accepts]

/-- The values of some keys of a mapping satisfy schemas of their own. -/
@[simp] theorem holds_properties {fields : List (String × Schema)} :
    Holds named (.mapping entries) (.properties fields) ↔
      ∀ field ∈ fields, ∀ m, Mapping.find? entries field.1 = some m → Accepts field.2 m :=
  fieldsAllow_iff

/-- The values of all keys that are not named satisfy a schema. -/
@[simp] theorem holds_others {s : Schema} :
    Holds named (.mapping entries) (.others s) ↔
      ∀ e ∈ otherEntries named entries, s.Accepts e.2 := by
  show ((otherEntries named entries).all fun e => s.accepts e.2) = true ↔ _
  rw [List.all_eq_true]
  exact Iff.rfl

/-- A mapping has no keys that are not named. -/
@[simp] theorem holds_noOthers :
    Holds named (.mapping entries) .noOthers ↔ otherEntries named entries = [] :=
  List.isEmpty_iff

/-- The members of a list satisfy a schema. -/
@[simp] theorem holds_items {members : List Value} {s : Schema} :
    Holds named (.list members) (.items s) ↔ ∀ m ∈ members, s.Accepts m := by
  show members.all s.accepts = true ↔ _
  rw [List.all_eq_true]
  exact Iff.rfl

/-- A text has at least so many characters. -/
@[simp] theorem holds_leastLength {n : Nat} {t : String} :
    Holds named (.text t) (.leastLength n) ↔ n ≤ t.length :=
  decide_eq_true_iff

/-- A number is at least this. -/
@[simp] theorem holds_least {n : Int} : Holds named v (.least n) ↔ isBelow n v = false := by
  show (!isBelow n v) = true ↔ _
  rw [Bool.not_eq_true']

/-- Those of some schemas that a value satisfies are counted. -/
theorem countAllowing_eq (choices : List Schema) :
    countAllowing v choices = (choices.filter fun s => s.accepts v).length := by
  induction choices with
  | nil => rw [countAllowing]; rfl
  | cons s rest ih =>
    rw [countAllowing, ih, ← accepts, List.filter_cons]
    split
    · rw [List.length_cons, Nat.add_comm]
    · rw [Nat.zero_add]

/-- Of some schemas exactly one is satisfied. -/
@[simp] theorem holds_exactlyOne {choices : List Schema} :
    Holds named v (.exactlyOne choices) ↔ (choices.filter fun s => s.accepts v).length = 1 := by
  show (countAllowing v choices == 1) = true ↔ _
  rw [beq_iff_eq, countAllowing_eq]

/-- A schema is not satisfied. -/
@[simp] theorem holds_never {s : Schema} : Holds named v (.never s) ↔ ¬ s.Accepts v := by
  show (!s.accepts v) = true ↔ _
  rw [Bool.not_eq_true', ← Bool.not_eq_true]
  exact Iff.rfl

/-- What a name stands for is satisfied. -/
@[simp] theorem holds_shared {name : String} {s : Schema} :
    Holds named v (.shared name s) ↔ s.Accepts v := Iff.rfl

/-- A remark asks for nothing. -/
@[simp] theorem holds_note {key value : String} : Holds named v (.note key value) ↔ True :=
  iff_of_true rfl trivial

/-! ### Schemas of one rule -/

/-- A schema of one rule is satisfied if the rule is. -/
theorem accepts_singleton {r : Rule} : Accepts [r] v ↔ Holds (namedKeys [r]) v r := by
  rw [accepts_iff, List.forall_mem_singleton]

/-- Where only the kind of a value is asked for, the value is of that kind. -/
theorem accepts_shapes {l : List Shape} :
    Accepts [.shapes l] v ↔ ∃ shape ∈ l, shape.has v = true := by
  rw [accepts_singleton, holds_shapes]

/-- A reference to a shared schema is satisfied if that schema is. -/
theorem accepts_shared {name : String} {s : Schema} : Accepts [.shared name s] v ↔ s.Accepts v := by
  rw [accepts_singleton, holds_shared]

/-- Where exactly one of some schemas has to be satisfied, one of them is. -/
theorem exists_of_exactlyOne {choices : List Schema} (h : Accepts [.exactlyOne choices] v) :
    ∃ s ∈ choices, s.Accepts v := by
  obtain ⟨s, hs⟩ := List.length_eq_one_iff.1 (holds_exactlyOne.1 (accepts_singleton.1 h))
  have hmem : s ∈ choices.filter fun s => s.accepts v := by
    rw [hs]
    exact List.mem_singleton_self s
  exact ⟨s, (List.mem_filter.1 hmem).1, (List.mem_filter.1 hmem).2⟩

end StaticSite.Schema
