/-! # Tables of code point ranges

A property of characters is given as a list of closed ranges of code points.
-/
namespace AugmentedBnf

/-- Closed ranges of code points, given by their first and last member. -/
abbrev CodeRanges := List (Nat × Nat)

/-- Whether a character lies in one of the ranges. -/
def CodeRanges.holds (ranges : CodeRanges) (c : Char) : Bool :=
  ranges.any fun (first, last) => decide (first ≤ c.toNat) && decide (c.toNat ≤ last)

end AugmentedBnf
