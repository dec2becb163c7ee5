/-!
# Sets of code points

A set of code points that is a union of ranges, given by the points at which one goes into the set and out
of it in turn.
-/

namespace Formulary

/-- Whether a character lies in the set of ascending bounds: from the first up to the second, from the
third up to the fourth, and so on. -/
def isWithin (bounds : List Nat) (c : Char) : Bool :=
  (bounds.takeWhile (· ≤ c.toNat)).length % 2 = 1

end Formulary
