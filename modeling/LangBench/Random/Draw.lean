import LangBench.Random.ChaCha

/-!
Drawing numbers from a stream of random words.

`below` draws with a tiny bias from one word, or two in the rare case that the first is near the
edge of a number's share; `belowFair` rejects words until there is no bias. `weighted` draws an
element with the chance that its weight gives it.
-/

namespace LangBench

/-- What can be drawn from a stream of random words. -/
abbrev Draw := StateM WordStream

namespace Draw

/-- A number below `2 ^ 32`. -/
def word32 : Draw Nat := do
  let s ← get
  let (w, s) := s.next
  set s
  return w.toNat

/-- A number below `2 ^ 64`: the word with the low bits comes first. -/
def word64 : Draw Nat := do
  let low ← word32
  let high ← word32
  return low + high * UInt32.size

/-- A number below `n`, where `word` draws one below `m` and `n ≤ m`. -/
def below (word : Draw Nat) (m n : Nat) : Draw Nat := do
  let product := (← word) * n
  if m - n < product % m then
    let carry := (product % m + (← word) * n / m) / m
    return product / m + carry
  else return product / m

/-- A number below `n` without bias, where `word` draws one below `m` and `n ≤ m`. Words that would
give some number too large a share are rejected, but the last of `tries + 1` words is taken. -/
def belowFair (word : Draw Nat) (m n : Nat) : Nat → Draw Nat
  | 0 => return (← word) * n / m
  | tries + 1 => do
    let product := (← word) * n
    if (m - n) % n ≤ product % m then return product / m else belowFair word m n tries

/-- A number up to a bound, drawn from as few words as the bound needs. -/
def upTo (bound : Nat) : Draw Nat :=
  if bound < UInt32.size then below word32 UInt32.size (bound + 1)
  else below word64 UInt64.size (bound + 1)

/-- More words than are ever rejected in a row. -/
def manyTries : Nat := 1 <<< 62

/-- The first element whose weight, with those before it, exceeds `r`. -/
def pick? {α : Type} : List (α × Nat) → Nat → Option α
  | [], _ => none
  | (x, weight) :: rest, r => if r < weight then some x else pick? rest (r - weight)

def totalWeight {α : Type} (weights : List (α × Nat)) : Nat := weights.foldr (·.2 + ·) 0

/-- An element, each with the chance that its weight gives it. Without weight there is none. -/
def weighted {α : Type} (weights : List (α × Nat)) : Draw (Option α) :=
  if totalWeight weights = 0 then return none
  else return pick? weights (← belowFair word64 UInt64.size (totalWeight weights) manyTries)

end Draw

end LangBench
