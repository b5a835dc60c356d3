import StaticSite.Text.Search

/-!
# First and last occurrences

A cut at the first occurrence of a text is known by its parts: the text occurs no earlier
(`cut?_eq_some_iff`). Read backwards this tells of the last occurrence (`cutLast?_eq_some_iff`).
-/

namespace StaticSite.Text

variable {needle s before after : List Char}

/-- Nothing comes after a needle that the text does not start with. -/
theorem after?_eq_none_iff : after? needle s = none ↔ ¬needle <+: s := by
  rw [Option.eq_none_iff_forall_ne_some]
  constructor
  · rintro h ⟨rest, rfl⟩
    exact h rest (after?_eq_some_iff.2 rfl)
  · intro h rest hrest
    exact h ⟨rest, (after?_eq_some_iff.1 hrest).symm⟩

/-- A text cannot be cut at a needle that does not occur in it. -/
theorem cut?_eq_none_iff : cut? needle s = none ↔ ¬needle <:+: s := by
  induction s with
  | nil => cases needle <;> simp [cut?]
  | cons c s ih =>
    rw [List.infix_cons_iff, not_or, ← ih, ← after?_eq_none_iff]
    cases h : after? needle (c :: s) <;> simp [cut?, h]

/-- A text is cut at an occurrence if and only if none ends before that one. -/
theorem cut?_eq_some_iff (hne : needle ≠ []) :
    cut? needle s = some (before, after) ↔ s = before ++ needle ++ after ∧
      ¬needle <:+: (before ++ needle).dropLast := by
  -- A needle in what is left of an occurrence without its end stands before the occurrence.
  have hshort : ¬needle <:+: needle.dropLast := by
    intro h
    have hle := h.length_le
    have := List.length_pos_iff.2 hne
    rw [List.length_dropLast] at hle
    omega
  constructor
  · intro h
    refine ⟨cut?_append h, ?_⟩
    induction s generalizing before with
    | nil =>
      rw [cut?, if_neg (by simpa using hne)] at h
      cases h
    | cons c s ih =>
      simp only [cut?] at h
      split at h
      · obtain ⟨rfl, -⟩ := Prod.mk.inj (Option.some.inj h)
        exact hshort
      · rename_i hnone
        obtain ⟨⟨before, after⟩, hcut, hparts⟩ := Option.map_eq_some_iff.1 h
        obtain ⟨rfl, rfl⟩ := Prod.mk.inj hparts
        have hparts := cut?_append hcut
        rw [List.cons_append, List.dropLast_cons_of_ne_nil
          (List.append_ne_nil_of_right_ne_nil _ hne), List.infix_cons_iff, not_or]
        refine ⟨fun hfront => after?_eq_none_iff.1 hnone (hfront.trans ?_), ih hcut⟩
        rw [hparts, List.cons_prefix_cons]
        exact ⟨rfl, (List.dropLast_prefix _).trans (List.prefix_append _ _)⟩
  · rintro ⟨rfl, h⟩
    induction before with
    | nil =>
      obtain ⟨c, needle, rfl⟩ := List.exists_cons_of_ne_nil hne
      have hafter : after? (c :: needle) (c :: (needle ++ after)) = some after :=
        after?_eq_some_iff.2 rfl
      simp only [List.nil_append, List.cons_append, cut?, hafter]
    | cons c before ih =>
      rw [List.cons_append, List.dropLast_cons_of_ne_nil (List.append_ne_nil_of_right_ne_nil _ hne),
        List.infix_cons_iff, not_or] at h
      have hnone : after? needle (c :: (before ++ needle ++ after)) = none := by
        rw [after?_eq_none_iff]
        intro hfront
        refine h.1 (List.prefix_of_prefix_length_le hfront ?_ ?_)
        · rw [List.cons_prefix_cons]
          exact ⟨rfl, (List.dropLast_prefix _).trans (List.prefix_append _ _)⟩
        · have := List.length_pos_iff.2 hne
          simp only [List.length_cons, List.length_dropLast, List.length_append]
          omega
      simp only [List.cons_append, cut?, hnone, ih h.2, Option.map_some]

/-- A text cannot be cut at the last place of a needle that does not occur in it. -/
theorem cutLast?_eq_none_iff : cutLast? needle s = none ↔ ¬needle <:+: s := by
  rw [cutLast?, Option.map_eq_none_iff, cut?_eq_none_iff, List.reverse_infix]

/-- A text is cut at the last occurrence if and only if none begins after that one. -/
theorem cutLast?_eq_some_iff (hne : needle ≠ []) :
    cutLast? needle s = some (before, after) ↔ s = before ++ needle ++ after ∧
      ¬needle <:+: (needle ++ after).tail := by
  have hcut : cutLast? needle s = some (before, after) ↔
      cut? needle.reverse s.reverse = some (after.reverse, before.reverse) := by
    rw [cutLast?, Option.map_eq_some_iff]
    constructor
    · rintro ⟨⟨after, before⟩, h, hparts⟩
      obtain ⟨rfl, rfl⟩ := Prod.mk.inj hparts
      rw [h, List.reverse_reverse, List.reverse_reverse]
    · intro h
      exact ⟨_, h, by simp only [List.reverse_reverse]⟩
  have hparts : s.reverse = after.reverse ++ needle.reverse ++ before.reverse ↔
      s = before ++ needle ++ after := by
    rw [← List.reverse_append, ← List.reverse_append, List.reverse_inj, List.append_assoc]
  rw [hcut, cut?_eq_some_iff (by simpa using hne), hparts, ← List.reverse_append,
    List.dropLast_reverse, List.reverse_infix]

/-- A text that is split has a part. -/
theorem splitFrom_ne_nil (sep : List Char) (skip : Nat) (s : List Char) :
    splitFrom sep skip s ≠ [] := by
  induction s generalizing skip with
  | nil => cases skip <;> simp [splitFrom]
  | cons c rest ih =>
    cases skip with
    | zero =>
      rw [splitFrom]
      split
      · exact List.cons_ne_nil _ _
      · split <;> exact List.cons_ne_nil _ _
    | succ skip => exact ih skip

end StaticSite.Text
