import Mathlib.Data.List.Lex
import Mathlib.Data.String.Basic
import StaticSite.Proofs.Path.Text

/-!
# The order of paths

Paths are ordered by their components, and lists of components as words in a dictionary are
(`componentsLt_iff`). Two normal paths with the same components are one
(`IsNormal.eq_of_components_eq`), so that this is a linear order of them.
-/

namespace StaticSite.Path

variable {p q : Path}

/-- Components are compared as lists are. -/
theorem componentsLt_iff {l l' : List String} : componentsLt l l' = true ↔ l < l' := by
  induction l generalizing l' with
  | nil => cases l' <;> simp [componentsLt]
  | cons a l ih =>
    cases l' with
    | nil => simp [componentsLt]
    | cons b l' => simp [componentsLt, List.cons_lt_cons_iff, ih]

/-- Paths are compared as the lists of their components are. -/
theorem isBefore_iff : p.isBefore q = true ↔ p.components < q.components := componentsLt_iff

/-- A path is not before another one if and only if its components are not. -/
theorem isBefore_eq_false_iff : p.isBefore q = false ↔ q.components ≤ p.components := by
  rw [← Bool.not_eq_true, isBefore_iff, not_lt]

/-- The components of a normal path tell its root and its names. -/
theorem IsNormal.eq_of_components_eq (hp : p.IsNormal) (hq : q.IsNormal)
    (h : p.components = q.components) : p = q := by
  have htext : ∀ r r' : Root, r ≠ .relative → r' ≠ .relative → r.text = r'.text → r = r' := by
    intro r r' hr hr' heq
    cases r <;> cases r' <;> first | rfl | contradiction
  unfold components at h
  rw [if_neg (by simpa using hp.1), if_neg (by simpa using hq.1)] at h
  obtain ⟨hroot, hnames⟩ := List.cons.inj h
  obtain ⟨root, names⟩ := p
  obtain ⟨root', names'⟩ := q
  rw [htext root root' hp.1 hq.1 hroot, show names = names' from hnames]

end StaticSite.Path
