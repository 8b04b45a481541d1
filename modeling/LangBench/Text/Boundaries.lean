/-!
Sets of characters given by their boundaries.

A list of ascending code points stands for the characters from the first to before the second, from
the third to before the fourth, and so on.
-/

namespace LangBench.Text

/-- Whether a character lies in the set: an odd number of boundaries is not above it. -/
def within (boundaries : List Nat) (c : Char) : Bool :=
  boundaries.countP (· ≤ c.toNat) % 2 = 1

end LangBench.Text
