/-!
Symbols and samples.

A sample is one row of symbols. Seen as a container it has two axes: a batch axis of size 1 and an
axis along which the symbols lie.
-/

namespace LangBench

/-- A letter of an alphabet. A language over `n` letters uses the numbers below `n`. -/
abbrev Symbol := UInt32

/-- A finite row of symbols. -/
abbrev Sample := List Symbol

namespace Sample

def dims (s : Sample) : List Nat := [1, s.length]

/-- The extent along an axis; only axes 0 and 1 have one. -/
def extent (s : Sample) (axis : Nat) : Option Nat := s.dims[axis]?

/-- Every symbol belongs to an alphabet of `n` letters. -/
def withinAlphabet (s : Sample) (n : Nat) : Bool := s.all fun x ↦ x.toNat < n

def render (s : Sample) : String := "[" ++ ", ".intercalate (s.map toString) ++ "]"

theorem withinAlphabet_iff {s : Sample} {n : Nat} :
    s.withinAlphabet n = true ↔ ∀ x ∈ s, x.toNat < n := by
  simp [withinAlphabet]

theorem withinAlphabet_mono {s : Sample} {m n : Nat} (h : m ≤ n)
    (hs : s.withinAlphabet m = true) : s.withinAlphabet n = true :=
  withinAlphabet_iff.2 fun x hx ↦ Nat.lt_of_lt_of_le (withinAlphabet_iff.1 hs x hx) h

end Sample

end LangBench
