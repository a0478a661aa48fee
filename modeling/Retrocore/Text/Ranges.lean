/-!
# Sets of characters

A set of characters is given by ranges of their numbers, as tables of characters
print them.
-/

namespace Retrocore.Text

/-- Ranges of character numbers. Both ends belong to a range. -/
abbrev Ranges := List (Nat × Nat)

/-- Whether the number of a character is in one of the ranges. -/
def Ranges.cover (ranges : Ranges) (c : Char) : Bool :=
  ranges.any fun (first, last) => first ≤ c.toNat && c.toNat ≤ last

/-- Whether the ranges stand in order, with a gap between each and the next. -/
def Ranges.ordered (ranges : Ranges) : Bool :=
  ranges.all (fun range => range.1 ≤ range.2)
    && (ranges.zip ranges.tail).all fun (range, next) => range.2 + 1 < next.1

end Retrocore.Text
