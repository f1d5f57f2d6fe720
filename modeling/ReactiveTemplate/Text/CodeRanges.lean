/-!
# Ranges of code points

A property of characters as the ranges of code points that have it.

* `CodeRanges`: the ranges, each by its first and last code point, in ascending order.
* `CodeRanges.has`: whether a character lies in one of them.
-/

namespace ReactiveTemplate.Text

/-- Ranges of code points, each by its first and last one. -/
abbrev CodeRanges := List (Nat × Nat)

/-- Whether a character lies in one of the ranges. -/
def CodeRanges.has (ranges : CodeRanges) (c : Char) : Bool :=
  ranges.any fun r => r.1 ≤ c.toNat && c.toNat ≤ r.2

end ReactiveTemplate.Text
