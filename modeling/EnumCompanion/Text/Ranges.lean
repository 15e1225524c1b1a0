/-!
# Sets of characters given by ranges

A property of characters that a standard defines by a table is a list of closed
ranges of code points. `inRanges` decides membership.
-/

namespace EnumCompanion.Text

/-- Whether the code point of `c` lies in one of the closed ranges. -/
def inRanges (ranges : List (Nat × Nat)) (c : Char) : Bool :=
  ranges.any fun (first, last) => first ≤ c.toNat && c.toNat ≤ last

end EnumCompanion.Text
