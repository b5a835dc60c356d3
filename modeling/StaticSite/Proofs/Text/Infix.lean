import Mathlib.Data.List.Basic

/-!
# Texts within texts

A text that is one of some texts stands within what they are joined to, and what stands within one
of two texts stands within both together.
-/

namespace StaticSite.Text

/-- A text stands within the texts among which it is, with a separator between them. -/
theorem isInfix_intercalate {sep x : String} {l : List String} (h : x ∈ l) :
    x.toList <:+: (sep.intercalate l).toList := by
  rw [String.toList_intercalate]
  induction l with
  | nil => cases h
  | cons y rest ih =>
    cases rest with
    | nil =>
      obtain rfl : x = y := by simpa using h
      simp
    | cons z rest =>
      rw [List.map_cons, List.map_cons, List.intercalate_cons_cons]
      rcases List.mem_cons.1 h with rfl | h
      · exact List.infix_append_of_infix_left (List.prefix_append _ _).isInfix
      · exact (ih h).trans (List.suffix_append _ _).isInfix

/-- A text in a list occurs in the joined texts of the list. -/
theorem isInfix_join {x : String} {l : List String} (h : x ∈ l) :
    x.toList <:+: (String.join l).toList := by
  rw [String.toList_join, List.flatMap_def]
  exact List.infix_of_mem_flatten (List.mem_map_of_mem h)

/-- What occurs in the first of two texts occurs in both together. -/
theorem isInfix_append_left {t : List Char} {x y : String} (h : t <:+: x.toList) :
    t <:+: (x ++ y).toList := by
  rw [String.toList_append]
  exact h.trans (List.prefix_append _ _).isInfix

/-- What occurs in the second of two texts occurs in both together. -/
theorem isInfix_append_right {t : List Char} {x y : String} (h : t <:+: y.toList) :
    t <:+: (x ++ y).toList := by
  rw [String.toList_append]
  exact h.trans (List.suffix_append _ _).isInfix

end StaticSite.Text
