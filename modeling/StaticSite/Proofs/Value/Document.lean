import StaticSite.Proofs.Config.Field

/-!
# Values read from documents

What is read from a YAML text or from a JSON document is proper: only scalars are keys, and an entry
whose key was there before takes its place.
-/

namespace StaticSite

open Value Config

namespace Yaml

/-- What comes after a guard is reached only past it. -/
theorem eq_ok_of_guard {ε α β : Type} {c : Prop} [Decidable c] {cause : ε} {f : β → Except ε α}
    {x : Except ε α} {a : α} (h : (if c then Except.error cause >>= f else x) = .ok a) :
    x = .ok a := by
  split at h
  · cases h
  · exact h

/-- A time stamp is a day or a moment. -/
theorem day_or_moment_of_stampValue {p : Stamp} {v : Value} (h : stampValue p = .ok v) :
    (∃ d, v = .day d) ∨ ∃ m, v = .moment m := by
  unfold stampValue at h
  replace h := eq_ok_of_guard (eq_ok_of_guard (eq_ok_of_guard h))
  split at h
  · cases h
    exact .inl ⟨_, rfl⟩
  · replace h := eq_ok_of_guard (eq_ok_of_guard (eq_ok_of_guard (eq_ok_of_guard h)))
    cases h
    exact .inr ⟨_, rfl⟩

/-- A scalar can be a key. -/
theorem isKey_of_valueOf {kind : Kind} {s : List Char} {v : Value}
    (h : valueOf kind s = .ok (some v)) :
    v.isKey = true := by
  cases kind with
  | null | bool | text =>
    cases h
    rfl
  | float =>
    cases h
    exact isKey_float _
  | merge | default => cases h
  | binary =>
    obtain ⟨b, -, rfl⟩ := Option.map_eq_some_iff.1 (Except.ok.inj h)
    rfl
  | int =>
    cases hn : intOf s with
    | error cause => simp [valueOf, hn, Except.map] at h
    | ok n =>
      simp only [valueOf, hn, Except.map] at h
      cases h
      rfl
  | timestamp =>
    simp only [valueOf] at h
    split at h
    · rename_i p _
      cases hp : stampValue p with
      | error cause => simp [hp, Except.map] at h
      | ok w =>
        simp only [hp, Except.map] at h
        cases h
        rcases day_or_moment_of_stampValue hp with ⟨d, rfl⟩ | ⟨m, rfl⟩ <;> rfl
    · cases h

/-- A scalar can be a key. -/
theorem isKey_scalarValue {tag : Option String} {plain : Bool} {text : String} {v : Value}
    (h : scalarValue tag plain text = .ok v) : v.isKey = true := by
  unfold scalarValue at h
  obtain ⟨kind, -, h⟩ := bind_eq_ok.1 h
  split at h
  · cases h
  · cases h
  · rename_i w hvalue
    rw [← Except.ok.inj h]
    exact isKey_of_valueOf hvalue

/-- A key can be one. -/
theorem isKey_keyValue {tag : Option String} {plain : Bool} {text : String} {v : Value}
    (h : keyValue tag plain text = .ok v) : v.isKey = true := by
  unfold keyValue at h
  split at h
  · rw [← Except.ok.inj h, isKey_text]
  · exact isKey_scalarValue h

/-- What a value brings in under a merge key are entries of mappings in it. -/
theorem isProper_of_mem_drawnIn {v : Value} {drawn : Mapping} (hv : v.isProper = true)
    (h : drawnIn v = .ok drawn) :
    ∀ e ∈ drawn, e.1.isKey = true ∧ e.2.isProper = true := by
  cases v with
  | mapping entries =>
    obtain rfl := Except.ok.inj h
    rw [isProper_mapping] at hv
    exact (Mapping.isProper_iff.1 hv).2
  | list items =>
    rw [Value.isProper, areProper_iff] at hv
    refine foldlM_invariant (P := fun drawn : Mapping => ∀ e ∈ drawn, e.1.isKey = true ∧
      e.2.isProper = true)
      (by simp) (fun item hitem before drawn hbefore hdrawn => ?_) h
    have hproper := hv item hitem
    cases item with
    | mapping entries =>
      obtain rfl := Except.ok.inj hdrawn
      rw [isProper_mapping] at hproper
      exact List.forall_mem_append.2 ⟨(Mapping.isProper_iff.1 hproper).2, hbefore⟩
    | _ => cases hdrawn
  | _ => cases h

/-- Entries with proper values make a proper mapping. -/
theorem isProper_mappingOf {own : List (Option Value × Value)} {m : Mapping}
    (hown : ∀ e ∈ own, (∀ k, e.1 = some k → k.isKey = true) ∧ e.2.isProper = true)
    (h : mappingOf own = .ok m) : Mapping.isProper m = true := by
  obtain ⟨drawn, hdrawn, h⟩ := bind_eq_ok.1 h
  rw [← Except.ok.inj h]
  refine Mapping.isProper_ofEntries (List.forall_mem_append.2 ⟨?_, fun e he => ?_⟩)
  · refine foldlM_invariant (P := fun drawn : Mapping => ∀ e ∈ drawn, e.1.isKey = true ∧
      e.2.isProper = true)
      (by simp) (fun entry hentry before drawn hbefore hdrawn => ?_) hdrawn
    split at hdrawn
    · obtain ⟨more, hmore, hdrawn⟩ := bind_eq_ok.1 hdrawn
      rw [← Except.ok.inj hdrawn]
      exact List.forall_mem_append.2 ⟨hbefore, isProper_of_mem_drawnIn (hown entry hentry).2 hmore⟩
    · rwa [← Except.ok.inj hdrawn]
  · obtain ⟨entry, hentry, hmap⟩ := List.mem_filterMap.1 he
    obtain ⟨key, hkey, rfl⟩ := Option.map_eq_some_iff.1 hmap
    exact ⟨(hown entry hentry).1 key hkey, (hown entry hentry).2⟩

/-- What goes down further than anything goes is proper. -/
theorem isProper_bottomless : bottomless.isProper = true := by
  have hwrap : ∀ (l : List Nat) (v : Value), v.isProper = true →
      (l.foldl (fun v _ => .list [v]) v).isProper = true := by
    intro l
    induction l with
    | nil => exact fun v hv => hv
    | cons n rest ih =>
        exact fun v hv => ih (.list [v]) (by simp [Value.isProper, Value.areProper, hv])
  exact hwrap _ _ rfl

mutual

/-- The value of a node is proper. -/
theorem isProper_nodeValue : (n : Node) → ∀ {v}, n.value = .ok v → v.isProper = true
  | .scalar tag plain s, v, h => by
    rw [Node.value] at h
    exact isProper_of_isKey v (isKey_scalarValue h)
  | .sequence tag items, v, h => by
    rw [Node.value] at h
    obtain ⟨kind, -, h⟩ := bind_eq_ok.1 h
    split at h
    · obtain ⟨values, hvalues, h⟩ := bind_eq_ok.1 h
      rw [← Except.ok.inj h, Value.isProper]
      exact areProper_nodePairs items hvalues
    · obtain ⟨values, hvalues, h⟩ := bind_eq_ok.1 h
      rw [← Except.ok.inj h, Value.isProper]
      exact areProper_nodeValues items hvalues
  | .mapping tag entries, v, h => by
    rw [Node.value] at h
    obtain ⟨kind, -, h⟩ := bind_eq_ok.1 h
    obtain ⟨own, hown, h⟩ := bind_eq_ok.1 h
    obtain ⟨m, hm, h⟩ := bind_eq_ok.1 h
    have hproper := isProper_mappingOf (isProper_nodeEntries entries hown) hm
    rw [← Except.ok.inj h]
    split
    · -- The members of a set were keys of a mapping.
      rw [Value.isProper, areProper_iff, List.forall_mem_map]
      exact fun e he => isProper_of_isKey e.1 ((Mapping.isProper_iff.1 hproper).2 e he).1
    · rwa [isProper_mapping]
  | .within, v, h => by
    rw [Node.value] at h
    rw [← Except.ok.inj h, isProper_bottomless]

/-- The values of nodes are proper. -/
theorem areProper_nodeValues : (items : List Node) → ∀ {values}, Node.values items = .ok values →
    Value.areProper values = true
  | [], values, h => by
    rw [Node.values] at h
    rw [← Except.ok.inj h, Value.areProper]
  | n :: rest, values, h => by
    rw [Node.values] at h
    obtain ⟨v, hv, h⟩ := bind_eq_ok.1 h
    obtain ⟨others, hothers, h⟩ := bind_eq_ok.1 h
    rw [← Except.ok.inj h, Value.areProper, isProper_nodeValue n hv,
      areProper_nodeValues rest hothers]
    rfl

/-- The pairs of nodes are proper. -/
theorem areProper_nodePairs : (items : List Node) → ∀ {values}, Node.pairs items = .ok values →
    Value.areProper values = true
  | [], values, h => by
    rw [Node.pairs] at h
    rw [← Except.ok.inj h, Value.areProper]
  | .mapping _ [(k, n)] :: rest, values, h => by
    rw [Node.pairs] at h
    obtain ⟨key, hkey, h⟩ := bind_eq_ok.1 h
    obtain ⟨v, hv, h⟩ := bind_eq_ok.1 h
    obtain ⟨others, hothers, h⟩ := bind_eq_ok.1 h
    rw [← Except.ok.inj h, Value.areProper, areProper_nodePairs rest hothers]
    simp [Value.isProper, Value.areProper, isProper_nodeValue k hkey, isProper_nodeValue n hv]
  | .scalar .. :: _, values, h => by cases h
  | .sequence .. :: _, values, h => by cases h
  | .mapping _ [] :: _, values, h => by cases h
  | .mapping _ (_ :: _ :: _) :: _, values, h => by cases h
  | .within :: _, values, h => by cases h

/-- The entries of nodes have keys that can be ones, and proper values. -/
theorem isProper_nodeEntries :
    (entries : List (Node × Node)) → ∀ {own}, Node.entries entries = .ok own →
    ∀ e ∈ own, (∀ k, e.1 = some k → k.isKey = true) ∧ e.2.isProper = true
  | [], own, h => by
    rw [Node.entries] at h
    rw [← Except.ok.inj h]
    exact fun e he => by cases he
  | (k, n) :: rest, own, h => by
    have hentry : ∀ key : Option Value, (∀ k, key = some k → k.isKey = true) →
        (do let value ← n.value
            return (key, value) :: (← Node.entries rest)) = .ok own →
        ∀ e ∈ own, (∀ k, e.1 = some k → k.isKey = true) ∧ e.2.isProper = true := by
      intro key hkey h
      obtain ⟨v, hv, h⟩ := bind_eq_ok.1 h
      obtain ⟨others, hothers, h⟩ := bind_eq_ok.1 h
      rw [← Except.ok.inj h, List.forall_mem_cons]
      exact ⟨⟨hkey, isProper_nodeValue n hv⟩, isProper_nodeEntries rest hothers⟩
    unfold Node.entries at h
    dsimp only at h
    split at h
    · exact hentry none (by simp) h
    · split at h
      · obtain ⟨key, hkey, h⟩ := bind_eq_ok.1 h
        refine hentry key (fun k hk => ?_) h
        rw [map_eq_pure_bind] at hkey
        obtain ⟨k', hk', hkey⟩ := bind_eq_ok.1 hkey
        cases hkey
        rw [← Option.some.inj hk]
        exact isKey_keyValue hk'
      · cases h

end

/-- The value of a text is proper. -/
theorem isProper_parse {s : String} {v : Value} (h : parse s = .ok v) : v.isProper = true := by
  unfold parse at h
  split at h
  · cases h
  · rw [← Except.ok.inj h]
    rfl
  · exact isProper_nodeValue _ h

end Yaml

namespace Json

mutual

/-- The value of a JSON document is proper. -/
theorem isProper_toValue : (document : Json) → document.toValue.isProper = true
  | .null | .bool _ | .int _ | .float _ | .string _ => by simp [Json.toValue, Value.isProper]
  | .array items => by
    rw [Json.toValue, Value.isProper]
    exact areProper_toValues items
  | .object entries => by
    rw [Json.toValue, isProper_mapping]
    exact Mapping.isProper_ofEntries (isProper_toEntries entries)

/-- The values of a JSON array are proper. -/
theorem areProper_toValues : (items : List Json) → Value.areProper (Json.toValues items) = true
  | [] => by rw [Json.toValues, Value.areProper]
  | v :: rest => by
    rw [Json.toValues, Value.areProper, isProper_toValue v, areProper_toValues rest]
    rfl

/-- The entries of a JSON object have keys that can be ones, and proper values. -/
theorem isProper_toEntries : (entries : List (List Symbol × Json)) →
    ∀ e ∈ Json.toEntries entries, e.1.isKey = true ∧ e.2.isProper = true
  | [] => by simp [Json.toEntries]
  | (k, v) :: rest => by
    rw [Json.toEntries, List.forall_mem_cons]
    exact ⟨⟨isKey_text _, isProper_toValue v⟩, isProper_toEntries rest⟩

end

end Json

end StaticSite
