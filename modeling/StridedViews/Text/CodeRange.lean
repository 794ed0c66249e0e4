/-!
Classes of characters as tables of code point ranges.

A table lists its ranges in rising order, both ends included. Main statement: a code point is in the
class exactly when one of the ranges holds it.
-/

namespace StridedViews.Text

/-- Whether a code point lies in one of the ranges. -/
def inRanges (ranges : List (Nat × Nat)) (n : Nat) : Bool :=
  ranges.any fun r => r.1 ≤ n && n ≤ r.2

theorem inRanges_iff {ranges : List (Nat × Nat)} {n : Nat} :
    inRanges ranges n = true ↔ ∃ r ∈ ranges, r.1 ≤ n ∧ n ≤ r.2 := by
  simp [inRanges]

/-- Each range begins where it may, and after a gap that follows the range before it: nothing is
listed twice, and no two neighbours could be written as one. -/
def risingFrom : Nat → List (Nat × Nat) → Bool
  | _, [] => true
  | least, r :: rest => least ≤ r.1 && r.1 ≤ r.2 && risingFrom (r.2 + 2) rest

end StridedViews.Text
