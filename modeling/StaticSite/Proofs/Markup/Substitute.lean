import Mathlib.Data.List.Infix
import StaticSite.Markup.Minify

/-!
# Replacing parts of a text

A rule that replaces parts of a text from the left does so part by part (`substitute_append`), and
leaves alone what it does not apply to (`substitute_append_of_none`). Where a rule removes the end
of such a part (`Removes`), a text stays exactly if the rule applies nowhere in it.
-/

namespace StaticSite.Markup

variable {rule : List Char → Option (List Char × Nat)} {s t new : List Char}

/-- What is replaced from some character on is what is replaced in the rest. -/
theorem substituteFrom_eq_drop (skip : Nat) (s : List Char) :
    substituteFrom rule skip s = substitute rule (s.drop skip) := by
  induction skip generalizing s with
  | zero => rfl
  | succ skip ih =>
    cases s with
    | nil => rfl
    | cons c s => exact ih s

/-- A character to which the rule does not apply is kept. -/
theorem substitute_of_none {c : Char} (h : rule (c :: s) = none) :
    substitute rule (c :: s) = c :: substitute rule s := by
  simp only [substitute, substituteFrom, h]

/-- A part that a rule stands for is replaced. -/
theorem substitute_append (ht : t ≠ []) (h : rule (t ++ s) = some (new, t.length)) :
    substitute rule (t ++ s) = new ++ substitute rule s := by
  obtain ⟨c, t, rfl⟩ := List.exists_cons_of_ne_nil ht
  rw [List.cons_append] at h ⊢
  simp only [substitute, substituteFrom, h, List.length_cons, Nat.add_sub_cancel]
  rw [substituteFrom_eq_drop, List.drop_left]
  rfl

/-- A part of which a rule keeps the beginning. -/
theorem substitute_append_append {gone : List Char} (hnew : new ≠ [])
    (h : rule (new ++ (gone ++ s)) = some (new, (new ++ gone).length)) :
    substitute rule (new ++ (gone ++ s)) = new ++ substitute rule s := by
  rw [← List.append_assoc] at h ⊢
  exact substitute_append (by simp [hnew]) h

/-- A part in which no rule applies stays. -/
theorem substitute_append_of_none (h : ∀ v, v <:+ t → v ≠ [] → rule (v ++ s) = none) :
    substitute rule (t ++ s) = t ++ substitute rule s := by
  induction t with
  | nil => rfl
  | cons c t ih =>
    have hnone : rule (c :: (t ++ s)) = none := h (c :: t) List.suffix_rfl (List.cons_ne_nil c t)
    rw [List.cons_append, substitute_of_none hnone,
      ih fun v hv => h v (hv.trans (List.suffix_cons c t)), List.cons_append]

/-! ## Rules that remove -/

/-- A rule keeps the beginning of the part that it stands for, and removes the rest. -/
def Removes (rule : List Char → Option (List Char × Nat)) : Prop :=
  ∀ s new width, rule s = some (new, width) →
    ∃ gone after, new ≠ [] ∧ gone ≠ [] ∧ s = new ++ (gone ++ after) ∧ width = (new ++ gone).length

namespace Removes

variable (h : Removes rule)

include h

/-- A rule that removes something does not apply to the empty text. -/
theorem rule_nil : rule [] = none := by
  rw [Option.eq_none_iff_forall_ne_some]
  rintro ⟨new, width⟩ hrule
  obtain ⟨gone, after, hnew, -, heq, -⟩ := h _ _ _ hrule
  exact hnew (List.append_eq_nil_iff.1 heq.symm).1

/-- Induction along what a rule does with a text. -/
theorem induction {motive : List Char → Prop} (nil : motive [])
    (stays : ∀ c s, rule (c :: s) = none → motive s → motive (c :: s))
    (goes : ∀ new gone after, new ≠ [] → gone ≠ [] → rule (new ++ (gone ++ after)) =
      some (new, (new ++ gone).length) →
      motive after → motive (new ++ (gone ++ after))) (s : List Char) : motive s := by
  induction hn : s.length using Nat.strongRecOn generalizing s with
  | _ n ih =>
    cases s with
    | nil => exact nil
    | cons c s =>
      cases hrule : rule (c :: s) with
      | none => exact stays c s hrule (ih s.length (by rw [← hn]; exact Nat.lt_succ_self _) s rfl)
      | some replaced =>
        obtain ⟨new, width⟩ := replaced
        obtain ⟨gone, after, hnew, hgone, heq, rfl⟩ := h _ _ _ hrule
        rw [heq] at hrule hn ⊢
        refine goes new gone after hnew hgone hrule (ih _ ?_ after rfl)
        have hlength := List.length_pos_of_ne_nil hnew
        simp only [List.length_append] at hn
        omega

/-- What a rule leaves is part of the text. -/
theorem sublist (s : List Char) : (substitute rule s).Sublist s := by
  induction s using h.induction with
  | nil => exact .refl []
  | stays c s hnone ih =>
    rw [substitute_of_none hnone]
    exact ih.cons_cons c
  | goes new gone after hnew _ hrule ih =>
    rw [substitute_append_append hnew hrule]
    exact (List.Sublist.refl new).append (ih.trans (List.sublist_append_right gone after))

/-- Removing does not change the first character. -/
theorem head?_eq (s : List Char) : (substitute rule s).head? = s.head? := by
  induction s using h.induction with
  | nil => rfl
  | stays c s hnone _ =>
    rw [substitute_of_none hnone]
    rfl
  | goes new gone after hnew _ hrule _ =>
    rw [substitute_append_append hnew hrule, List.head?_append_of_ne_nil _ hnew,
      List.head?_append_of_ne_nil _ hnew]

/-- A text stays if and only if the rule applies nowhere in it. -/
theorem eq_self_iff (s : List Char) : substitute rule s = s ↔ ∀ v, v <:+ s → rule v = none := by
  induction s using h.induction with
  | nil =>
    refine iff_of_true rfl fun v hv => ?_
    rw [List.suffix_nil.1 hv]
    exact h.rule_nil
  | stays c s hnone ih =>
    rw [substitute_of_none hnone, List.cons_inj_right, ih]
    simp only [List.suffix_cons_iff, forall_eq_or_imp, hnone, true_and]
  | goes new gone after hnew hgone hrule _ =>
    refine iff_of_false (fun heq => ?_) fun hnone => ?_
    · rw [substitute_append_append hnew hrule, List.append_cancel_left_eq] at heq
      have hle := (h.sublist after).length_le
      have hlength := List.length_pos_of_ne_nil hgone
      rw [heq, List.length_append] at hle
      omega
    · rw [hnone _ List.suffix_rfl] at hrule
      cases hrule

/-- A rule that tells nothing across a character works on either side of it by itself. -/
theorem substitute_append_cons {c : Char} {b : List Char}
    (hlocal : ∀ s, rule (s ++ c :: b) = rule s) (s : List Char) :
    substitute rule (s ++ c :: b) = substitute rule s ++ c :: substitute rule b := by
  induction s using h.induction with
  | nil => exact substitute_of_none ((hlocal []).trans h.rule_nil)
  | stays d s hnone ih =>
    have hnone' : rule (d :: (s ++ c :: b)) = none := (hlocal (d :: s)).trans hnone
    rw [substitute_of_none hnone, List.cons_append, substitute_of_none hnone', ih, List.cons_append]
  | goes new gone after hnew _ hrule ih =>
    have hrule' := (hlocal _).trans hrule
    rw [substitute_append_append hnew hrule]
    simp only [List.append_assoc] at hrule' ⊢
    rw [substitute_append_append hnew hrule', ih]

end Removes

end StaticSite.Markup
