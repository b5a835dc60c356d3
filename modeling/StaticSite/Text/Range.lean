/-!
# Ranges of code points

A character class outside the first 128 code points is a list of ranges, lowest first.
-/

namespace StaticSite.Text

/-- Whether a number lies in one of the ranges, both ends included. -/
def inRanges (ranges : List (Nat × Nat)) (n : Nat) : Bool :=
  ranges.any fun r => r.1 ≤ n && n ≤ r.2

/-- A number is in some ranges if and only if it is in one of them. -/
theorem inRanges_iff {ranges : List (Nat × Nat)} {n : Nat} :
    inRanges ranges n = true ↔ ∃ r ∈ ranges, r.1 ≤ n ∧ n ≤ r.2 := by
  simp [inRanges]

end StaticSite.Text
