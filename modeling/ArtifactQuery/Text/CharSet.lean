/-!
# Character sets

A set of characters is written as the ascending list of its inclusive code point ranges.

* `CharSet.has`: membership, which stops at the first range that starts above the character.
-/

namespace ArtifactQuery

/-- Inclusive ranges of code points, ascending and disjoint. -/
abbrev CharSet := List (Nat × Nat)

/-- Whether the code point `n` lies in one of the ranges. -/
def CharSet.covers (n : Nat) : CharSet → Bool
  | [] => false
  | (lo, hi) :: rest => if n < lo then false else n ≤ hi || CharSet.covers n rest

/-- Whether the set contains `c`. -/
def CharSet.has (s : CharSet) (c : Char) : Bool := s.covers c.toNat

end ArtifactQuery
