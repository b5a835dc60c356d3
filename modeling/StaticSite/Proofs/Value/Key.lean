import StaticSite.Value.Merge
import Mathlib.Data.List.Basic

/-!
# Keys of mappings

Two values are the same key if they have one form as keys (`Value.keyForm?`), so that to be the same
key is symmetric and transitive. What a mapping holds under a key is told by the form of the key,
and giving a key a value changes nothing under other keys (`Mapping.get?_set`). A value is proper if
the keys of every mapping in it are keys, no two of them the same (`Value.isProper`).
-/

namespace StaticSite

namespace Value

variable {a b : Value}

/-- Two keys are the same if and only if they have the same form. -/
theorem sameKey_iff : a.sameKey b = true ↔ ∃ form, a.keyForm? = some form ∧
    b.keyForm? = some form := by
  unfold sameKey
  cases a.keyForm? <;> cases b.keyForm? <;> simp [@eq_comm KeyForm]

/-- Being the same key does not depend on the order. -/
theorem sameKey_comm (a b : Value) : a.sameKey b = b.sameKey a := by
  rw [Bool.eq_iff_iff, sameKey_iff, sameKey_iff]
  exact exists_congr fun _ => and_comm

/-- The same keys have the same form. -/
theorem keyForm?_eq_of_sameKey (h : a.sameKey b = true) : a.keyForm? = b.keyForm? := by
  obtain ⟨form, ha, hb⟩ := sameKey_iff.1 h
  rw [ha, hb]

/-- The same keys are the same as the same others. -/
theorem sameKey_congr_left (h : a.sameKey b = true) (c : Value) : a.sameKey c = b.sameKey c := by
  rw [sameKey, sameKey, keyForm?_eq_of_sameKey h]

/-- The same others are the same as the same keys. -/
theorem sameKey_congr_right (h : a.sameKey b = true) (c : Value) : c.sameKey a = c.sameKey b := by
  rw [sameKey, sameKey, keyForm?_eq_of_sameKey h]

/-- Whether a value can be a key: a list, a set or a mapping cannot. -/
def isKey (v : Value) : Bool := v.keyForm?.isSome

/-- A value is the same key as itself if and only if it can be a key. -/
theorem sameKey_self (v : Value) : v.sameKey v = v.isKey := by
  unfold sameKey isKey
  cases v.keyForm? <;> simp

/-- Every text is a key. -/
@[simp] theorem isKey_text (s : String) : (text s).isKey = true := rfl

/-- Every float is a key. -/
@[simp] theorem isKey_float (x : Float) : (float x).isKey = true := by
  unfold isKey keyForm?
  cases Decimal.integral? x <;> rfl

/-- Only a text has the form of a text as a key. -/
theorem keyForm?_eq_text_iff {v : Value} {s : String} :
    v.keyForm? = some (.scalar (.text s)) ↔ v = .text s := by
  cases v with
  | float x => cases h : Decimal.integral? x <;> simp [keyForm?, h]
  | _ => simp [keyForm?]

/-- Only a text is the same key as a text. -/
theorem sameKey_text_iff {v : Value} {s : String} : v.sameKey (.text s) = true ↔ v = .text s := by
  constructor
  · intro h
    exact keyForm?_eq_text_iff.1 (keyForm?_eq_of_sameKey h)
  · rintro rfl
    rw [sameKey_self, isKey_text]

end Value

namespace Mapping

open Value

variable {m : Mapping} {k k' v : Value}

/-- The keys of a mapping in order. -/
def keys (m : Mapping) : List Value := m.map Prod.fst

/-- An empty mapping has no keys. -/
@[simp] theorem keys_nil : keys [] = [] := rfl

/-- The keys of a mapping are the key of its first entry and those of the rest. -/
@[simp] theorem keys_cons (e : Value × Value) (rest : Mapping) :
    keys (e :: rest) = e.1 :: keys rest := rfl

/-- The same keys have the same value. -/
theorem get?_congr (m : Mapping) (h : k.sameKey k' = true) : m.get? k = m.get? k' := by
  induction m with
  | nil => rfl
  | cons e rest ih => rw [get?_cons, get?_cons, sameKey_congr_right h, ih]

/-- A key has a value if it is the same as some key of the mapping. -/
theorem isSome_get? : (m.get? k).isSome = true ↔ ∃ l ∈ keys m, l.sameKey k = true := by
  induction m with
  | nil => simp
  | cons e rest ih =>
    rw [get?_cons, keys_cons]
    split <;> simp_all

/-- A key has no value if and only if none of the keys is the same. -/
theorem get?_eq_none_iff : m.get? k = none ↔ ∀ l ∈ keys m, l.sameKey k = false := by
  rw [← Option.not_isSome_iff_eq_none, isSome_get?]
  simp

/-- What a mapping holds under a key stands in it. -/
theorem exists_mem_of_get? (h : m.get? k = some v) : ∃ l, (l, v) ∈ m ∧ l.sameKey k = true := by
  induction m with
  | nil => cases h
  | cons e rest ih =>
    rw [get?_cons] at h
    split at h
    · rename_i hsame
      exact ⟨e.1, by rw [← Option.some.inj h]; exact List.mem_cons_self, hsame⟩
    · obtain ⟨l, hmem, hsame⟩ := ih h
      exact ⟨l, List.mem_cons_of_mem _ hmem, hsame⟩

/-! ## Giving a key a value -/

/-- Giving a key a value changes nothing under other keys. -/
theorem get?_set (m : Mapping) (k v k' : Value) :
    (m.set k v).get? k' = if k.sameKey k' then some v else m.get? k' := by
  induction m with
  | nil => rw [set, get?_cons]
  | cons e rest ih =>
    rw [set]
    by_cases hsame : e.1.sameKey k = true
    · rw [if_pos hsame, get?_cons, get?_cons, sameKey_congr_left hsame]
      split <;> rfl
    · rw [if_neg hsame, get?_cons, get?_cons, ih]
      by_cases hkey : e.1.sameKey k' = true
      · -- The key in front is another one than the one that is given a value.
        have hother : ¬ k.sameKey k' = true := fun h => hsame (by rwa [sameKey_congr_right h])
        rw [if_pos hkey, if_pos hkey, if_neg hother]
      · rw [if_neg hkey, if_neg hkey]

/-- Setting a key that is there keeps the keys, and another one comes last. -/
theorem keys_set (m : Mapping) (k v : Value) :
    keys (m.set k v) = if (m.get? k).isSome then keys m else keys m ++ [k] := by
  induction m with
  | nil => rfl
  | cons e rest ih =>
    rw [set, get?_cons]
    by_cases hsame : e.1.sameKey k = true
    · rw [if_pos hsame, if_pos hsame]
      rfl
    · rw [if_neg hsame, if_neg hsame, keys_cons, ih]
      split <;> rfl

/-- Setting a key to the value that it has changes nothing. -/
theorem set_eq_self (h : m.get? k = some v) : m.set k v = m := by
  induction m with
  | nil => cases h
  | cons e rest ih =>
    rw [get?_cons] at h
    rw [set]
    split at h
    · rename_i hsame
      rw [if_pos hsame, ← Option.some.inj h]
    · rename_i hsame
      rw [if_neg hsame, ih h]

/-- What stands in a mapping after a key was given a value stood there before or is what was
given. -/
theorem mem_set {e : Value × Value} (h : e ∈ m.set k v) :
    e ∈ m ∨ e.2 = v ∧ (e.1 ∈ keys m ∨ e.1 = k) := by
  induction m with
  | nil =>
    rw [set, List.mem_singleton] at h
    exact .inr ⟨by rw [h], .inr (by rw [h])⟩
  | cons e' rest ih =>
    rw [set] at h
    split at h
    · rcases List.mem_cons.1 h with rfl | h
      · exact .inr ⟨rfl, .inl List.mem_cons_self⟩
      · exact .inl (List.mem_cons_of_mem _ h)
    · rcases List.mem_cons.1 h with rfl | h
      · exact .inl List.mem_cons_self
      · rcases ih h with h | ⟨hv, h | h⟩
        · exact .inl (List.mem_cons_of_mem _ h)
        · exact .inr ⟨hv, .inl (List.mem_cons_of_mem _ h)⟩
        · exact .inr ⟨hv, .inr h⟩

end Mapping

/-! ## Proper values -/

mutual

/-- Whether the keys of every mapping in a value are keys, no two of them the same. -/
def Value.isProper : Value → Bool
  | .list items | .tuple items | .set items => Value.areProper items
  | .mapping entries => Mapping.isProper entries
  | _ => true

/-- Whether the members of a list, a tuple or a set are proper. -/
def Value.areProper : List Value → Bool
  | [] => true
  | v :: rest => v.isProper && Value.areProper rest

/-- Whether the keys of a mapping, and of every mapping in it, are keys, no two of them the same. -/
def Mapping.isProper : List (Value × Value) → Bool
  | [] => true
  | (k, v) :: rest => k.isKey && (Mapping.get? rest k).isNone && v.isProper && Mapping.isProper rest

end

/-- A mapping is proper as a value if and only if it is as a mapping. -/
@[simp] theorem Value.isProper_mapping (m : Mapping) :
    (Value.mapping m).isProper = Mapping.isProper m := by
  rw [Value.isProper]

mutual

/-- What can be a key holds no mapping. -/
theorem Value.isProper_of_isKey : (v : Value) → v.isKey = true → v.isProper = true
  | .list _, h | .set _, h | .mapping _, h => by simp [isKey, keyForm?] at h
  | .tuple items, h => by
    rw [isProper]
    refine areProper_of_keyForms? items ?_
    rwa [isKey, keyForm?, Option.isSome_map] at h
  | .null, _ | .bool _, _ | .int _, _ | .float _, _ | .text _, _ | .bytes _, _ | .day _,
        _ | .moment _, _ => by
    simp [isProper]

/-- What can be the members of a key holds no mapping. -/
theorem Value.areProper_of_keyForms? : (items : List Value) → (keyForms? items).isSome = true →
    areProper items = true
  | [], _ => by rw [areProper]
  | v :: rest, h => by
    rw [keyForms?] at h
    have hparts : v.isKey = true ∧ (keyForms? rest).isSome = true := by
      unfold isKey
      split at h
      · rename_i hform hforms
        simp [hform, hforms]
      · cases h
    rw [areProper, isProper_of_isKey v hparts.1, areProper_of_keyForms? rest hparts.2]
    rfl

end

/-- A list is proper if and only if its members are. -/
theorem Value.areProper_iff {items : List Value} :
    areProper items = true ↔ ∀ v ∈ items, v.isProper = true := by
  induction items with
  | nil => simp [areProper]
  | cons v rest ih => simp [areProper, ih]

namespace Mapping

open Value

variable {m : Mapping} {k v : Value}

/-- The empty mapping is proper. -/
@[simp] theorem isProper_nil : isProper [] = true := by
  rw [isProper]

/-- A mapping is proper if the key of its first entry is one, not there again, and all values are
proper. -/
theorem isProper_cons {e : Value × Value} {rest : Mapping} :
    isProper (e :: rest) = true ↔
      e.1.isKey = true ∧ rest.get? e.1 = none ∧ e.2.isProper = true ∧ isProper rest = true := by
  simp [isProper, and_assoc]

/-- A mapping is proper if its keys are keys, no two of them the same, and its values are proper. -/
theorem isProper_iff : isProper m = true ↔
    (keys m).Pairwise (fun k l => k.sameKey l = false) ∧ ∀ e ∈ m, e.1.isKey = true ∧
      e.2.isProper = true := by
  induction m with
  | nil => simp
  | cons e rest ih =>
    rw [isProper_cons, ih, keys_cons, List.pairwise_cons, List.forall_mem_cons, get?_eq_none_iff]
    simp only [sameKey_comm _ e.1]
    tauto

/-- The values of a proper mapping are proper. -/
theorem isProper_of_mem (h : isProper m = true) {e : Value × Value} (hmem : e ∈ m) :
    e.2.isProper = true :=
  ((isProper_iff.1 h).2 e hmem).2

/-- A proper mapping holds under each of its keys what stands beside it. -/
theorem get?_of_mem (h : isProper m = true) (hmem : (k, v) ∈ m) : m.get? k = some v := by
  induction m with
  | nil => cases hmem
  | cons e rest ih =>
    obtain ⟨hkey, hnew, -, hrest⟩ := isProper_cons.1 h
    rw [get?_cons]
    rcases List.mem_cons.1 hmem with rfl | hmem
    · rw [if_pos (by rwa [sameKey_self])]
    · have hother : ¬ e.1.sameKey k = true := by
        rw [sameKey_comm, get?_eq_none_iff.1 hnew k (List.mem_map_of_mem hmem)]
        exact Bool.false_ne_true
      rw [if_neg hother, ih hrest hmem]

/-- The value of a key in a proper mapping is proper. -/
theorem isProper_of_get? (h : isProper m = true) (hget : m.get? k = some v) :
    v.isProper = true := by
  obtain ⟨l, hmem, -⟩ := exists_mem_of_get? hget
  exact isProper_of_mem h hmem

/-- Giving a key a proper value leaves a mapping proper. -/
theorem isProper_set (h : isProper m = true) (hk : k.isKey = true) (hv : v.isProper = true) :
    isProper (m.set k v) = true := by
  obtain ⟨hkeys, hmem⟩ := isProper_iff.1 h
  rw [isProper_iff, keys_set]
  refine ⟨?_, fun e he => ?_⟩
  · split
    · exact hkeys
    · rename_i hnone
      rw [Option.not_isSome_iff_eq_none, get?_eq_none_iff] at hnone
      rw [List.pairwise_append]
      exact ⟨hkeys, List.pairwise_singleton _ _,
        fun l hl l' hl' => by rw [List.mem_singleton.1 hl', hnone l hl]⟩
  · rcases mem_set he with he | ⟨hvalue, hkey | hkey⟩
    · exact hmem e he
    · obtain ⟨e', he', hkey'⟩ := List.mem_map.1 hkey
      exact ⟨by rw [← hkey']; exact (hmem e' he').1, by rwa [hvalue]⟩
    · exact ⟨by rwa [hkey], by rwa [hvalue]⟩

/-- Writing entries with proper values makes a proper mapping. -/
theorem isProper_ofEntries {entries : List (Value × Value)}
    (h : ∀ e ∈ entries, e.1.isKey = true ∧ e.2.isProper = true) :
    isProper (ofEntries entries) = true := by
  unfold ofEntries
  generalize hstart : ([] : Mapping) = start
  have hproper : isProper start = true := by rw [← hstart, isProper_nil]
  clear hstart
  induction entries generalizing start with
  | nil => exact hproper
  | cons e rest ih =>
    obtain ⟨⟨hkey, hvalue⟩, hrest⟩ := List.forall_mem_cons.1 h
    exact ih hrest _ (isProper_set hproper hkey hvalue)

end Mapping

end StaticSite
