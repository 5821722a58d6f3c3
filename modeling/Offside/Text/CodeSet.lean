/-!
# Sets of code points

The sets of this library that go by a property of characters follow Unicode 17.
-/
namespace Offside.Text

/-- A set of code points by the points, in increasing order, at which membership changes. The first
point is the first member. -/
structure CodeSet where
  turns : List Nat

/-- A code point is a member when an odd number of changes lie at or before it. -/
def CodeSet.contains (s : CodeSet) (c : Char) : Bool :=
  s.turns.countP (· ≤ c.toNat) % 2 = 1

end Offside.Text
