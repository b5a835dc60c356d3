import StaticSite.Proofs.Value.Key

/-!
# Mappings laid over one another

What a merged mapping holds is told path by path: at a path of keys (`Value.at?`) the upper mapping
says what stands there, or that nothing does because what is no mapping stands on the way, or it
says nothing (`Value.says?`), and then the lower mapping counts (`at?_merge`). `Mapping.IsOver`
spells that out, together with the order of the keys. Laying a mapping over another a second time
changes nothing (`merge_merge_self`).
-/

namespace StaticSite

namespace Value

/-- What stands at the end of a path of keys in a value. -/
def at? (v : Value) : List Value → Option Value
  | [] => some v
  | key :: path =>
    match v with
    | .mapping entries => (Mapping.get? entries key).bind fun m => m.at? path
    | _ => none

/-- What a value says of the end of a path of keys: nothing if a mapping on the way lacks a key,
that nothing stands there if what is no mapping stands on the way, and what stands there
otherwise. -/
def says? (v : Value) : List Value → Option (Option Value)
  | [] => some (some v)
  | key :: path =>
    match v with
    | .mapping entries => (Mapping.get? entries key).bind fun m => m.says? path
    | _ => some none

variable {v : Value} {m : Mapping}

/-- A value itself is at the empty place. -/
@[simp] theorem at?_nil (v : Value) : v.at? [] = some v := by
  rw [at?]

/-- A value says itself of the empty place. -/
@[simp] theorem says?_nil (v : Value) : v.says? [] = some (some v) := by
  rw [says?]

/-- What is at a place in a mapping is at the rest of it in the value of its first key. -/
theorem at?_mapping_cons (m : Mapping) (key : Value) (path : List Value) :
    (mapping m).at? (key :: path) = (m.get? key).bind fun v => v.at? path := by
  rw [at?]

/-- What a mapping says of a place its value under the first key says of the rest. -/
theorem says?_mapping_cons (m : Mapping) (key : Value) (path : List Value) :
    (mapping m).says? (key :: path) = (m.get? key).bind fun v => v.says? path := by
  rw [says?]

/-- Nothing is at a place below what is no mapping. -/
theorem at?_cons_of_not_isMapping (h : v.isMapping = false) (key : Value) (path : List Value) :
    v.at? (key :: path) = none := by
  cases v <;> first | rfl | cases h

/-- What is no mapping says that nothing is below it. -/
theorem says?_cons_of_not_isMapping (h : v.isMapping = false) (key : Value) (path : List Value) :
    v.says? (key :: path) = some none := by
  cases v <;> first | rfl | cases h

/-- A value is a mapping or not. -/
theorem mapping_or (v : Value) : (∃ m, v = mapping m) ∨ v.isMapping = false := by
  cases v with
  | mapping m => exact .inl ⟨m, rfl⟩
  | _ => exact .inr rfl

/-- At the end of a path stands what is said of it. -/
theorem at?_eq (v : Value) (path : List Value) : v.at? path = (v.says? path).join := by
  induction path generalizing v with
  | nil => simp
  | cons key path ih =>
    rcases mapping_or v with ⟨m, rfl⟩ | h
    · rw [at?_mapping_cons, says?_mapping_cons]
      cases Mapping.get? m key with
      | none => rfl
      | some w => exact ih w
    · rw [at?_cons_of_not_isMapping h, says?_cons_of_not_isMapping h]
      rfl

/-- What is no mapping stands on the way if and only if nothing can stand at the end. -/
theorem says?_eq_some_none_iff {path : List Value} : v.says? path = some none ↔
    ∃ front w, front <+: path ∧ front ≠ path ∧ v.at? front = some w ∧ w.isMapping = false := by
  induction path generalizing v with
  | nil =>
    refine iff_of_false (by simp) ?_
    rintro ⟨front, w, hfront, hne, -⟩
    exact hne (List.prefix_nil.1 hfront)
  | cons key path ih =>
    rcases mapping_or v with ⟨m, rfl⟩ | h
    · rw [says?_mapping_cons]
      constructor
      · intro hsaid
        obtain ⟨w, hw, hsaid⟩ := Option.bind_eq_some_iff.1 hsaid
        obtain ⟨front, u, hfront, hne, hat, hu⟩ := ih.1 hsaid
        refine ⟨key :: front, u, List.cons_prefix_cons.2 ⟨rfl, hfront⟩,
          fun h => hne (List.cons.inj h).2, ?_, hu⟩
        rw [at?_mapping_cons, hw, Option.bind_some, hat]
      · rintro ⟨front, u, hfront, hne, hat, hu⟩
        cases front with
        | nil =>
          rw [at?_nil] at hat
          rw [← Option.some.inj hat] at hu
          cases hu
        | cons key' front =>
          obtain rfl := (List.cons_prefix_cons.1 hfront).1
          rw [at?_mapping_cons] at hat
          obtain ⟨w, hw, hat⟩ := Option.bind_eq_some_iff.1 hat
          rw [hw, Option.bind_some, ih]
          exact ⟨front, u, (List.cons_prefix_cons.1 hfront).2, fun h => hne (by rw [h]), hat, hu⟩
    · rw [says?_cons_of_not_isMapping h]
      exact iff_of_true rfl ⟨[], v, List.nil_prefix, List.cons_ne_nil _ _ ∘ Eq.symm, at?_nil v, h⟩

/-- What is no mapping replaces what it is laid over. -/
theorem laidOver_of_not_isMapping (lower : Option Value) (h : v.isMapping = false) :
    laidOver lower v = v := by
  cases v with
  | mapping m => cases h
  | _ => rw [laidOver]; rintro _ _ - ⟨⟩

/-- Mappings are laid over one another entry by entry. -/
theorem laidOver_mapping (below above : Mapping) :
    laidOver (some (mapping below)) (mapping above) = mapping (below.merge above) := by
  rw [laidOver]

/-- Where there is no mapping to be laid over, a value stands as it is. -/
theorem laidOver_of_forall_ne {lower : Option Value} (h : ∀ below, lower ≠ some (mapping below))
    (v : Value) :
    laidOver lower v = v := by
  unfold laidOver
  split
  · exact absurd rfl (h _)
  · rfl

/-- Over nothing a value is laid as it is. -/
@[simp] theorem laidOver_none (v : Value) : laidOver none v = v := laidOver_of_forall_ne (by simp) v

end Value

namespace Mapping

open Value

variable {lower upper : Mapping} {key : Value}

/-- The entries of the upper mapping are laid over the lower one from the first. -/
theorem merge_cons (lower : Mapping) (e : Value × Value) (rest : Mapping) :
    merge lower (e :: rest) = merge (lower.set e.1 (laidOver (lower.get? e.1) e.2)) rest := by
  rw [merge]

/-- A merged mapping holds under a key of the upper mapping what that lays over the lower one. -/
theorem get?_merge (lower : Mapping) (h : isProper upper = true) (key : Value) :
    (merge lower upper).get? key = ((upper.get? key).map (laidOver (lower.get? key))).or
      (lower.get? key) := by
  induction upper generalizing lower with
  | nil => rw [merge_nil, get?_nil, Option.map_none, Option.none_or]
  | cons e rest ih =>
    obtain ⟨-, hnew, -, hrest⟩ := isProper_cons.1 h
    rw [merge_cons, ih _ hrest, get?_set, get?_cons]
    by_cases hsame : e.1.sameKey key = true
    · -- The key does not come again.
      have hnone : get? rest key = none := by rw [← get?_congr rest hsame, hnew]
      rw [if_pos hsame, if_pos hsame, hnone, get?_congr lower hsame]
      rfl
    · rw [if_neg hsame, if_neg hsame]

/-- The keys of the lower mapping keep their order, and the new keys of the upper one follow in
theirs. -/
theorem keys_merge (lower : Mapping) (h : isProper upper = true) :
    keys (merge lower upper) = keys lower ++ (keys upper).filter fun k =>
      (lower.get? k).isNone := by
  induction upper generalizing lower with
  | nil => simp
  | cons e rest ih =>
    obtain ⟨-, hnew, -, hrest⟩ := isProper_cons.1 h
    have hothers : ∀ k ∈ keys rest,
      ((lower.set e.1 (laidOver (lower.get? e.1) e.2)).get? k).isNone =
        (lower.get? k).isNone := by
      intro k hk
      have hother : ¬ e.1.sameKey k = true := by
        rw [sameKey_comm, get?_eq_none_iff.1 hnew k hk]
        exact Bool.false_ne_true
      rw [get?_set, if_neg hother]
    rw [merge_cons, ih _ hrest, List.filter_congr hothers, keys_set, keys_cons, List.filter_cons]
    cases lower.get? e.1 <;> simp

/-- What stands at a path in a value that is laid over another: what it says of the path itself, and
where it says nothing what stands there below. -/
theorem at?_laidOver (lower : Option Value) {v : Value} (h : v.isProper = true)
    (path : List Value) : (laidOver lower v).at? path =
      match v.says? path with
      | none => lower.bind fun w => w.at? path
      | some above => above.map (laidOver (lower.bind fun w => w.at? path)) := by
  induction path generalizing lower v with
  | nil => simp
  | cons key path ih =>
    rcases mapping_or v with ⟨above, rfl⟩ | hv
    · rw [says?_mapping_cons]
      by_cases hlower : ∃ below, lower = some (mapping below)
      · obtain ⟨below, rfl⟩ := hlower
        rw [laidOver_mapping, at?_mapping_cons, get?_merge below (by rwa [isProper_mapping] at h),
          Option.bind_some, at?_mapping_cons]
        cases hget : get? above key with
        | none => rfl
        | some w => exact ih _ (isProper_of_get? (by rwa [isProper_mapping] at h) hget)
      · -- There is nothing below to go into.
        have hbelow : (lower.bind fun w => w.at? (key :: path)) = none := by
          rw [Option.bind_eq_none_iff]
          rintro w rfl
          rcases mapping_or w with ⟨below, rfl⟩ | hw
          · exact absurd ⟨below, rfl⟩ hlower
          · exact at?_cons_of_not_isMapping hw key path
        rw [laidOver_of_forall_ne fun below hget => hlower ⟨below, hget⟩, hbelow, at?_eq,
          says?_mapping_cons]
        rcases (get? above key).bind fun w => w.says? path with _ | _ | w <;> simp
    · rw [laidOver_of_not_isMapping lower hv, at?_cons_of_not_isMapping hv,
        says?_cons_of_not_isMapping hv]
      rfl

/-- What stands at a path in a merged mapping: what the upper mapping says of it, and where that
says nothing what stands there in the lower one. -/
theorem at?_merge (lower : Mapping) (h : isProper upper = true) (path : List Value) :
    (mapping (merge lower upper)).at? path =
      match (mapping upper).says? path with
      | none => (mapping lower).at? path
      | some above => above.map (laidOver ((mapping lower).at? path)) := by
  rw [← laidOver_mapping, at?_laidOver _ (by rwa [isProper_mapping])]
  rfl

/-! ## Laying a mapping over another again -/

/-- Nothing changes where all that is laid over a mapping leaves what it holds. -/
theorem merge_eq_self (h : ∀ e ∈ upper, ∃ v, lower.get? e.1 = some v ∧ laidOver (some v) e.2 = v) :
    merge lower upper = lower := by
  induction upper with
  | nil => rw [merge_nil]
  | cons e rest ih =>
    obtain ⟨⟨v, hget, hv⟩, hrest⟩ := List.forall_mem_cons.1 h
    rw [merge_cons, hget, hv, set_eq_self hget, ih hrest]

/-- Induction on the mappings that are values of a mapping. -/
theorem inner_induction {motive : Mapping → Prop}
    (h : ∀ m : Mapping, (∀ e ∈ m, ∀ inner, e.2 = .mapping inner → motive inner) → motive m)
    (m : Mapping) : motive m := by
  refine h m fun e he inner hinner => ?_
  have hsmaller : sizeOf inner < sizeOf m := by
    have hmem := List.sizeOf_lt_of_mem he
    have hvalue : sizeOf e.2 = 1 + sizeOf inner := by rw [hinner, Value.mapping.sizeOf_spec]
    have hentry : sizeOf e = 1 + sizeOf e.1 + sizeOf e.2 := rfl
    omega
  exact inner_induction h inner
termination_by sizeOf m

/-- A proper mapping laid over itself is itself. -/
theorem merge_self (m : Mapping) (h : isProper m = true) : merge m m = m := by
  induction m using inner_induction with
  | h m ih =>
    refine merge_eq_self fun e he => ⟨e.2, get?_of_mem h he, ?_⟩
    have hproper := isProper_of_mem h he
    rcases mapping_or e.2 with ⟨inner, hinner⟩ | hv
    · rw [hinner, isProper_mapping] at hproper
      rw [hinner, laidOver_mapping, ih e he inner hinner hproper]
    · exact laidOver_of_not_isMapping _ hv

/-- Laying a proper mapping over another again changes nothing. -/
theorem merge_merge_self (lower upper : Mapping) (h : isProper upper = true) :
    merge (merge lower upper) upper = merge lower upper := by
  induction upper using inner_induction generalizing lower with
  | h upper ih =>
    refine merge_eq_self fun e he => ⟨laidOver (lower.get? e.1) e.2, ?_, ?_⟩
    · rw [get?_merge lower h, get?_of_mem h he]
      rfl
    · have hproper := isProper_of_mem h he
      rcases mapping_or e.2 with ⟨above, habove⟩ | hv
      · rw [habove, isProper_mapping] at hproper
        rw [habove]
        by_cases hlower : ∃ below, lower.get? e.1 = some (mapping below)
        · obtain ⟨below, hbelow⟩ := hlower
          rw [hbelow, laidOver_mapping, laidOver_mapping, ih e he above habove below hproper]
        · rw [laidOver_of_forall_ne fun below hget => hlower ⟨below, hget⟩, laidOver_mapping,
            merge_self above hproper]
      · rw [laidOver_of_not_isMapping (some _) hv, laidOver_of_not_isMapping _ hv]

/-! ## One mapping over another -/

/-- A mapping is one mapping laid over another. -/
structure IsOver (lower upper merged : Mapping) : Prop where
  /-- A value of the upper mapping that is no mapping stands. -/
  value : ∀ path v, (mapping upper).at? path = some v → v.isMapping = false →
    (mapping merged).at? path = some v
  /-- Where both have a mapping, the mapping of the one is laid over that of the other. -/
  both : ∀ path below above, (mapping lower).at? path = some (.mapping below) →
    (mapping upper).at? path = some (.mapping above) →
      (mapping merged).at? path = some (.mapping (merge below above))
  /-- A mapping of the upper mapping stands where the lower one has none. -/
  added : ∀ path above, (mapping upper).at? path = some (.mapping above) →
    (∀ below, (mapping lower).at? path ≠ some (.mapping below)) →
      (mapping merged).at? path = some (.mapping above)
  /-- Where the upper mapping has nothing, the lower one counts, unless the upper one has a value on
  the way that is no mapping. -/
  kept : ∀ path, (mapping upper).at? path = none →
    (∀ front v, front <+: path → front ≠ path → (mapping upper).at? front = some v →
      v.isMapping = true) →
      (mapping merged).at? path = (mapping lower).at? path
  /-- Beyond a value of the upper mapping that is no mapping there is nothing. -/
  hidden : ∀ path front v, front <+: path → front ≠ path → (mapping upper).at? front = some v →
    v.isMapping = false →
    (mapping merged).at? path = none
  /-- The keys of the lower mapping keep their order, and the new keys of the upper one follow in
  theirs. -/
  order : keys merged = keys lower ++ (keys upper).filter fun k => (lower.get? k).isNone

/-- Merging lays one mapping over another. -/
theorem isOver_merge (lower : Mapping) (h : isProper upper = true) :
    IsOver lower upper (merge lower upper) where
  value path v hat hv := by
    rw [at?_eq, Option.join_eq_some_iff] at hat
    rw [at?_merge lower h, hat]
    exact congrArg some (laidOver_of_not_isMapping _ hv)
  both path below above hlower hat := by
    rw [at?_eq, Option.join_eq_some_iff] at hat
    rw [at?_merge lower h, hat, hlower, ← laidOver_mapping]
    rfl
  added path above hat hlower := by
    rw [at?_eq, Option.join_eq_some_iff] at hat
    rw [at?_merge lower h, hat]
    exact congrArg some (laidOver_of_forall_ne hlower _)
  kept path hat hopen := by
    rw [at?_merge lower h]
    rcases hsaid : (mapping upper).says? path with _ | _ | v
    · rfl
    · obtain ⟨front, v, hfront, hne, hfrontat, hv⟩ := says?_eq_some_none_iff.1 hsaid
      rw [hopen front v hfront hne hfrontat] at hv
      cases hv
    · rw [at?_eq, hsaid] at hat
      cases hat
  hidden path front v hfront hne hat hv := by
    rw [at?_merge lower h, says?_eq_some_none_iff.2 ⟨front, v, hfront, hne, hat, hv⟩]
    rfl
  order := keys_merge lower h

end Mapping

end StaticSite
