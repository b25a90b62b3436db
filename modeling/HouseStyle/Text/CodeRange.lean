/-!
# Ranges of code points

Classes of characters are given as tables of closed ranges of code points.
-/

namespace HouseStyle.CodeRange

/-- Whether the code point of a character lies in one of some ranges. -/
def within (ranges : List (Nat × Nat)) (c : Char) : Bool :=
  ranges.any fun r => r.1 ≤ c.toNat && c.toNat ≤ r.2

end HouseStyle.CodeRange
