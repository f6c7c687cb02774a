/-!
# Ranges of code points

Character properties are given as lists of inclusive ranges of code points, in ascending order.
-/

namespace NlsBundle

/-- Whether the character's code point lies in one of the inclusive ranges. -/
def inRanges (ranges : List (Nat × Nat)) (c : Char) : Bool :=
  ranges.any fun (low, high) => low ≤ c.toNat && c.toNat ≤ high

end NlsBundle
