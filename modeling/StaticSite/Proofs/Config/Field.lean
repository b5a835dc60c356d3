import Mathlib.Data.List.Forall2
import StaticSite.Config.Convert
import StaticSite.Config.Rules
import StaticSite.Proofs.Schema
import StaticSite.Proofs.Value.Key

/-!
# Reading the fields of a configuration

A configuration is read field by field, and each reading may fail. `Config.Makes` says that it does
not; the lemmas on it take a reading apart along its steps and along the members of a list. What a
field gives depends on what the mapping holds under its key (`Value.member?`), and where the schema
fixes the kind of that, the field gives a value of that kind.
-/

namespace StaticSite

namespace Value

/-- What a mapping holds under a key. -/
def member? (v : Value) (key : String) : Option Value :=
  match v with
  | mapping entries => Mapping.find? entries key
  | _ => none

/-- The text that a mapping holds under a key, if it holds one. -/
def textsAt (v : Value) (key : String) : List String :=
  match v.member? key with
  | some (text s) => [s]
  | _ => []

/-- The members of the list that a mapping holds under a key. -/
def listAt (v : Value) (key : String) : List Value :=
  match v.member? key with
  | some (list items) => items
  | _ => []

/-- The entries of the mapping that a mapping holds under a key. -/
def mappingAt (v : Value) (key : String) : Mapping :=
  match v.member? key with
  | some (mapping entries) => entries
  | _ => []

section

variable {v : Value} {key : String}

/-- There is no text under a key that is not there. -/
theorem textsAt_of_member?_eq_none (h : v.member? key = none) : v.textsAt key = [] := by
  rw [textsAt, h]

/-- The text under a key is the one that is there. -/
theorem textsAt_of_member?_eq_some {s : String} (h : v.member? key = some (text s)) :
    v.textsAt key = [s] := by
  rw [textsAt, h]

/-- There is no list under a key that is not there. -/
theorem listAt_of_member?_eq_none (h : v.member? key = none) : v.listAt key = [] := by
  rw [listAt, h]

/-- The members of the list under a key are those of a list that is there. -/
theorem exists_of_mem_listAt {m : Value} (h : m ∈ v.listAt key) :
    ∃ items, v.member? key = some (list items) ∧ m ∈ items := by
  unfold listAt at h
  split at h
  · rename_i items hitems
    exact ⟨items, hitems, h⟩
  · cases h

end

end Value

namespace Config

open Schema

variable {α β : Type}

/-! ### Attempts -/

/-- An attempt gives a result. -/
def Makes (x : Except Fault α) : Prop := ∃ a, x = .ok a

/-- An answer is made. -/
@[simp] theorem makes_ok (a : α) : Makes (.ok a : Except Fault α) := ⟨a, rfl⟩

/-- An answer without a step is made. -/
@[simp] theorem makes_pure (a : α) : Makes (pure a : Except Fault α) := ⟨a, rfl⟩

/-- A fault makes nothing. -/
@[simp] theorem not_makes_error (fault : Fault) : ¬ Makes (.error fault : Except Fault α) := by
  rintro ⟨a, h⟩
  cases h

/-- Something is made if and only if there is no fault. -/
theorem makes_iff_isOk {x : Except Fault α} : Makes x ↔ x.isOk = true := by
  cases x with
  | error fault => exact iff_of_false (not_makes_error fault) Bool.false_ne_true
  | ok a => exact iff_of_true ⟨a, rfl⟩ rfl

/-- Something is made in two steps if each of them makes something. -/
theorem makes_bind {x : Except Fault α} {f : α → Except Fault β} :
    Makes (x >>= f) ↔ ∃ a, x = .ok a ∧ Makes (f a) := by
  cases x with
  | error fault => exact ⟨fun h => absurd h (not_makes_error fault), fun ⟨_, h, _⟩ => nomatch h⟩
  | ok a => exact ⟨fun h => ⟨a, rfl, h⟩, fun ⟨_, h, hf⟩ => Except.ok.inj h ▸ hf⟩

/-- Two steps answer if and only if the first answers and the second does so from there. -/
theorem bind_eq_ok {ε : Type} {x : Except ε α} {f : α → Except ε β} {b : β} :
    (x >>= f) = .ok b ↔ ∃ a, x = .ok a ∧ f a = .ok b := by
  cases x with
  | error fault => exact ⟨fun h => (nomatch h), fun ⟨_, h, _⟩ => nomatch h⟩
  | ok a => exact ⟨fun h => ⟨a, rfl, h⟩, fun ⟨_, h, hf⟩ => Except.ok.inj h ▸ hf⟩

/-- What holds at first and is kept by every step of a fold holds of its result. -/
theorem foldlM_invariant {ε : Type} {P : β → Prop} {step : β → α → Except ε β} {l : List α}
    {b b' : β} (hb : P b) (hstep : ∀ a ∈ l, ∀ b b', P b → step b a = .ok b' → P b')
    (h : l.foldlM step b = .ok b') : P b' := by
  induction l generalizing b with
  | nil => rwa [← Except.ok.inj h]
  | cons a rest ih =>
    obtain ⟨hfirst, hrest⟩ := List.forall_mem_cons.1 hstep
    rw [List.foldlM_cons] at h
    obtain ⟨next, hnext, h⟩ := bind_eq_ok.1 h
    exact ih (hfirst b next hb hnext) hrest h

/-- What follows an answer goes on from it. -/
theorem ok_bind {ε : Type} (a : α) (f : α → Except ε β) : (Except.ok a >>= f) = f a := rfl

/-- Where what comes after is made in any case, all is made if what comes first is. -/
theorem makes_bind_of_makes {x : Except Fault α} {f : α → Except Fault β} (hf : ∀ a, Makes (f a)) :
    Makes (x >>= f) ↔ Makes x := by
  cases x with
  | error fault => exact iff_of_false (not_makes_error fault) (not_makes_error fault)
  | ok a => exact iff_of_true (hf a) (makes_ok a)

/-- Turning an answer into another one makes nothing less. -/
theorem makes_map {x : Except Fault α} {f : α → β} : Makes (f <$> x) ↔ Makes x := by
  rw [map_eq_pure_bind]
  exact makes_bind_of_makes fun a => makes_pure (f a)

/-- What is made of the members of a list is made member by member. -/
theorem mapM_eq_ok {f : α → Except Fault β} {l : List α} {l' : List β} :
    l.mapM f = .ok l' ↔ List.Forall₂ (fun a b => f a = .ok b) l l' := by
  induction l generalizing l' with
  | nil =>
    rw [List.mapM_nil, List.forall₂_nil_left_iff]
    exact ⟨fun h => (Except.ok.inj h).symm, fun h => h ▸ rfl⟩
  | cons a l ih =>
    rw [List.mapM_cons, bind_eq_ok, List.forall₂_cons_left_iff]
    constructor
    · rintro ⟨b, hb, h⟩
      obtain ⟨rest, hrest, h⟩ := bind_eq_ok.1 h
      exact ⟨b, rest, hb, ih.1 hrest, (Except.ok.inj h).symm⟩
    · rintro ⟨b, rest, hb, hrest, rfl⟩
      exact ⟨b, hb, bind_eq_ok.2 ⟨rest, ih.2 hrest, rfl⟩⟩

/-- A list is made if and only if each member of it is. -/
theorem makes_mapM {f : α → Except Fault β} {l : List α} :
    Makes (l.mapM f) ↔ ∀ a ∈ l, Makes (f a) := by
  induction l with
  | nil => exact iff_of_true ⟨[], rfl⟩ (fun _ h => nomatch h)
  | cons a l ih =>
    rw [List.mapM_cons, makes_bind, List.forall_mem_cons, ← ih]
    constructor
    · rintro ⟨b, hb, h⟩
      obtain ⟨rest, hrest, -⟩ := makes_bind.1 h
      exact ⟨⟨b, hb⟩, rest, hrest⟩
    · rintro ⟨⟨b, hb⟩, rest, hrest⟩
      exact ⟨b, hb, makes_bind.2 ⟨rest, hrest, makes_pure _⟩⟩

/-- Going through a list gives a result if each member allows it, whatever came before. -/
theorem makes_foldlM {f : β → α → Except Fault β} {P : α → Prop} {l : List α} (b : β)
    (hf : ∀ a ∈ l, ∀ b, Makes (f b a) ↔ P a) : Makes (l.foldlM f b) ↔ ∀ a ∈ l, P a := by
  induction l generalizing b with
  | nil => exact iff_of_true ⟨b, rfl⟩ (fun _ h => nomatch h)
  | cons a l ih =>
    have hrest := fun b => ih b fun a' ha' => hf a' (List.mem_cons_of_mem _ ha')
    rw [List.foldlM_cons, makes_bind, List.forall_mem_cons, ← hf a List.mem_cons_self b]
    constructor
    · rintro ⟨b', hb', h⟩
      exact ⟨⟨b', hb'⟩, (hrest b').1 h⟩
    · rintro ⟨⟨b', hb'⟩, h⟩
      exact ⟨b', hb', (hrest b').2 h⟩

/-! ### Fields of a mapping -/

section

variable {entries : Mapping} {key : String} {v : Value}

/-- A field of a mapping is its member under the key. -/
theorem field?_mapping :
    field? (.mapping entries) key = .ok ((Value.mapping entries).member? key) := rfl

/-- A field that is there is found where it is needed. -/
theorem need_mapping {m : Value} (h : (Value.mapping entries).member? key = some m) :
    need (.mapping entries) key = .ok m := by
  have hfind : Mapping.find? entries key = some m := h
  rw [need, hfind]

/-- A field is what the mapping holds, or the default where that counts as false or is not there. -/
theorem fieldOr_mapping (entries : Mapping) (key : String) (default : Value) :
    fieldOr (.mapping entries) key default =
      .ok ((((Value.mapping entries).member? key).filter Value.isTruthy).getD default) := by
  rw [fieldOr, field?_mapping]
  cases (Value.mapping entries).member? key with
  | none => rfl
  | some m =>
    show Except.ok (if m.isTruthy = true then m else default) = _
    rw [Option.filter_some]
    split <;> rfl

/-- A field that holds a mapping if anything gives the entries of that. -/
theorem fieldOr_entries (entries : Mapping) (key : String)
    (h : ∀ m, (Value.mapping entries).member? key = some m → ∃ l, m = .mapping l) :
    fieldOr (.mapping entries) key (.mapping []) =
      .ok (.mapping ((Value.mapping entries).mappingAt key)) := by
  rw [fieldOr_mapping]
  unfold Value.mappingAt
  cases hm : (Value.mapping entries).member? key with
  | none => rfl
  | some m =>
    obtain ⟨l, rfl⟩ := h m hm
    cases l <;> rfl

/-- A field that holds a list if anything gives the members of that. -/
theorem fieldOr_items (entries : Mapping) (key : String)
    (h : ∀ m, (Value.mapping entries).member? key = some m → ∃ l, m = .list l) :
    fieldOr (.mapping entries) key (.list []) =
      .ok (.list ((Value.mapping entries).listAt key)) := by
  rw [fieldOr_mapping]
  unfold Value.listAt
  cases hm : (Value.mapping entries).member? key with
  | none => rfl
  | some m =>
    obtain ⟨l, rfl⟩ := h m hm
    cases l <;> rfl

/-- A field that holds a text if anything gives a text: that one, or the default. -/
theorem fieldOr_text (entries : Mapping) (key default : String)
    (h : ∀ m, (Value.mapping entries).member? key = some m → ∃ s, m = .text s) :
    ∃ s, fieldOr (.mapping entries) key (.text default) = .ok (.text s) ∧
      (s = default ∧ (∀ t ∈ (Value.mapping entries).textsAt key, t = "") ∨
        (Value.mapping entries).member? key = some (.text s)) := by
  rw [fieldOr_mapping]
  cases hm : (Value.mapping entries).member? key with
  | none =>
    rw [Value.textsAt_of_member?_eq_none hm]
    exact ⟨default, rfl, .inl ⟨rfl, fun _ ht => nomatch ht⟩⟩
  | some m =>
    obtain ⟨s, rfl⟩ := h m hm
    rw [Value.textsAt_of_member?_eq_some hm]
    by_cases hs : s = ""
    · subst hs
      exact ⟨default, rfl, .inl ⟨rfl, fun t ht => List.mem_singleton.1 ht⟩⟩
    · have htruthy : (Value.text s).isTruthy = true := by simp [Value.isTruthy, hs]
      exact ⟨s, by rw [Option.filter_some, if_pos htruthy, Option.getD_some], .inr rfl⟩

/-- A text is taken for the text that it is. -/
@[simp] theorem textOf_text (s : String) : textOf (.text s) = .ok s := by
  rw [textOf, if_pos (Value.isWritable_text s)]
  rfl

end

/-! ### Values that satisfy the rules -/

section

variable {entries : Mapping} {v : Value}

/-- A value is an object if it is a mapping. -/
theorem has_object : Shape.object.has v = true ↔ ∃ entries, v = .mapping entries := by
  cases v with
  | mapping entries => exact iff_of_true rfl ⟨entries, rfl⟩
  | _ => exact iff_of_false Bool.false_ne_true (by simp)

/-- A value is an array if it is a list. -/
theorem has_array : Shape.array.has v = true ↔ ∃ items, v = .list items := by
  cases v with
  | list items => exact iff_of_true rfl ⟨items, rfl⟩
  | _ => exact iff_of_false Bool.false_ne_true (by simp)

/-- A value is a string if it is a text. -/
theorem has_string : Shape.string.has v = true ↔ ∃ s, v = .text s := by
  cases v with
  | text s => exact iff_of_true rfl ⟨s, rfl⟩
  | _ => exact iff_of_false Bool.false_ne_true (by simp)

/-- A value is null if it is nothing. -/
theorem has_null : Shape.null.has v = true ↔ v = .null := by
  cases v with
  | null => exact iff_of_true rfl rfl
  | _ => exact iff_of_false Bool.false_ne_true (by simp)

/-- Any text, and no other value, satisfies the schema for texts. -/
theorem accepts_anyText : Rules.anyText.Accepts v ↔ ∃ s, v = .text s := by
  rw [Rules.anyText, accepts_shapes]
  simp only [List.mem_singleton, exists_eq_left, has_string]

/-- A list whose members have to satisfy a schema. -/
theorem exists_of_items {member : Schema} (h : Accepts [.shapes [.array], .items member] v) :
    ∃ items, v = .list items ∧ ∀ m ∈ items, member.Accepts m := by
  simp only [accepts_iff, List.forall_mem_cons, holds_shapes, List.mem_singleton, exists_eq_left,
    has_array, forall_eq] at h
  obtain ⟨⟨items, rfl⟩, hitems⟩ := h
  exact ⟨items, rfl, holds_items.1 hitems⟩

/-- A value for a text that is not empty is a text. -/
theorem exists_of_nonEmptyText (h : Rules.nonEmptyText.Accepts v) : ∃ s, v = .text s := by
  simp only [accepts_iff, Rules.nonEmptyText, List.forall_mem_cons, holds_shapes,
    List.mem_singleton, exists_eq_left, has_string] at h
  exact h.1

/-- A value for one of some texts is one of them. -/
theorem exists_of_oneOfTexts {l : List String} (h : Accepts [.oneOfTexts l] v) :
    ∃ s ∈ l, v = .text s := by
  simpa only [accepts_singleton, holds_oneOfTexts, Value.sameKey_text_iff] using h

/-- A value that has to be a mapping is one, and satisfies the other rules. -/
theorem exists_of_object {rules : List Rule} (h : Accepts (.shapes [.object] :: rules) v) :
    ∃ entries, v = .mapping entries ∧ ∀ r ∈ rules, Holds (namedKeys rules)
      (.mapping entries) r := by
  obtain ⟨hobject, hrules⟩ := List.forall_mem_cons.1 (accepts_iff.1 h)
  simp only [holds_shapes, List.mem_singleton, exists_eq_left, has_object] at hobject
  obtain ⟨entries, rfl⟩ := hobject
  exact ⟨entries, rfl, hrules⟩

/-- A field whose value has to be a list of members that satisfy a schema. -/
theorem fieldOr_items_of_accepts {member : Schema} (entries : Mapping) (key : String)
    (h : ∀ m, Mapping.find? entries key = some m → Accepts [.shapes [.array], .items member] m) :
    fieldOr (.mapping entries) key (.list []) = .ok (.list ((Value.mapping entries).listAt key)) ∧
      ∀ m ∈ (Value.mapping entries).listAt key, member.Accepts m := by
  refine ⟨fieldOr_items entries key fun m hm => (exists_of_items (h m hm)).imp fun _ h => h.1,
    fun m hm => ?_⟩
  obtain ⟨items, hitems, hm⟩ := Value.exists_of_mem_listAt hm
  obtain ⟨items', heq, hmembers⟩ := exists_of_items (h _ hitems)
  cases heq
  exact hmembers m hm

/-- A field whose value has to be a mapping that satisfies rules which no entry is needed for. -/
theorem fieldOr_entries_of_accepts {rules : List Rule} (entries : Mapping) (key : String)
    (h : ∀ m, Mapping.find? entries key = some m → Accepts (.shapes [.object] :: rules) m)
    (hempty : ∀ r ∈ rules, Holds (namedKeys rules) (.mapping []) r) :
    fieldOr (.mapping entries) key (.mapping []) =
      .ok (.mapping ((Value.mapping entries).mappingAt key)) ∧
      ∀ r ∈ rules, Holds (namedKeys rules)
        (.mapping ((Value.mapping entries).mappingAt key)) r := by
  refine ⟨fieldOr_entries entries key fun m hm => (exists_of_object (h m hm)).imp
    fun _ h => h.1, ?_⟩
  unfold Value.mappingAt
  split
  · rename_i l hl
    obtain ⟨l', heq, hrules⟩ := exists_of_object (h _ hl)
    cases heq
    exact hrules
  · exact hempty

/-- What a mapping holds under a key is one of its entries. -/
theorem mem_of_find? {key : String} {m : Value} (h : Mapping.find? entries key = some m) :
    (.text key, m) ∈ entries := by
  obtain ⟨k, hmem, hsame⟩ := Mapping.exists_mem_of_get? h
  rwa [Value.sameKey_text_iff.1 hsame] at hmem

/-- Where no key is named, all entries are others. -/
theorem otherEntries_nil : otherEntries [] entries = entries := by
  simp [otherEntries]

/-- A mapping without entries of other keys holds nothing under them. -/
theorem find?_eq_none_of_noOthers {named : List String} (h : otherEntries named entries = [])
    {key : String} (hkey : key ∉ named) : Mapping.find? entries key = none := by
  rw [Option.eq_none_iff_forall_ne_some]
  intro m hm
  have hmem : (.text key, m) ∈ otherEntries named entries := by
    have hother : ∀ name ∈ named, key ≠ name := fun name hname heq => hkey (heq ▸ hname)
    exact List.mem_filter.2 ⟨mem_of_find? hm, by simpa using hother⟩
  rw [h] at hmem
  exact List.not_mem_nil hmem

end

end Config

end StaticSite
