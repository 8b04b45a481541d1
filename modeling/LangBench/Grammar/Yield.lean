import LangBench.Sample

/-!
Productions and the least lengths of what they derive.

The least lengths are computed by lowering the entries of a table until no production lowers any.
A nonterminal that derives nothing keeps the entry `unproductive`; sums stop at that number too.
-/

namespace LangBench.Grammar

/-- An item on the right of a production. -/
inductive Item where
  | terminal (x : Symbol)
  | nonterminal (n : Nat)
  deriving DecidableEq

/-- One alternative of a nonterminal. -/
structure Production where
  lhs : Nat
  rhs : List Item
  deriving DecidableEq

/-- The least length of what derives nothing; no length counts beyond it. -/
def unproductive : Nat := UInt64.size - 1

def Item.yieldIn (table : Array Nat) : Item → Nat
  | .terminal _ => 1
  | .nonterminal n => table.getD n unproductive

/-- A sum that stops at `unproductive`. -/
def addYield (a b : Nat) : Nat := min (a + b) unproductive

/-- The least length that a table gives a row of items. -/
def yieldIn (table : Array Nat) (items : List Item) : Nat :=
  items.foldl (fun acc x ↦ addYield acc (x.yieldIn table)) 0

/-- Lower the entry of the left side if the right side is shorter. -/
def relax (table : Array Nat) (p : Production) : Array Nat :=
  let len := yieldIn table p.rhs
  if len < table.getD p.lhs unproductive then table.setIfInBounds p.lhs len else table

def total (table : Array Nat) : Nat := table.toList.foldr (· + ·) 0

def relaxAll (ps : List Production) (table : Array Nat) : Array Nat := ps.foldl relax table

theorem foldr_set_lt {entries : List Nat} {n len : Nat} (h : n < entries.length)
    (hlt : len < entries[n]) :
    (entries.set n len).foldr (· + ·) 0 < entries.foldr (· + ·) 0 := by
  induction entries generalizing n with
  | nil => simp at h
  | cons x xs ih =>
    cases n with
    | zero => simpa using hlt
    | succ n =>
      have := ih (n := n) (by simpa using h) (by simpa using hlt)
      simpa using this

theorem relax_eq_or_total_lt (table : Array Nat) (p : Production) :
    relax table p = table ∨ total (relax table p) < total table := by
  simp only [relax]
  split
  · next hlt =>
    by_cases h : p.lhs < table.size
    · refine .inr ?_
      rw [total, total, Array.toList_setIfInBounds]
      refine foldr_set_lt (by simpa using h) ?_
      rw [Array.getD, dif_pos h] at hlt
      exact hlt
    · exact .inl (Array.setIfInBounds_eq_of_size_le (Nat.le_of_not_lt h))
  · exact .inl rfl

theorem relaxAll_eq_or_total_lt (ps : List Production) (table : Array Nat) :
    relaxAll ps table = table ∨ total (relaxAll ps table) < total table := by
  induction ps generalizing table with
  | nil => exact .inl rfl
  | cons p ps ih =>
    rw [show relaxAll (p :: ps) table = relaxAll ps (relax table p) from rfl]
    rcases relax_eq_or_total_lt table p with h | h
    · rw [h]
      exact ih table
    · rcases ih (relax table p) with h' | h'
      · exact .inr (by rwa [h'])
      · exact .inr (Nat.lt_trans h' h)

/-- Lower entries until nothing changes. -/
def settle (ps : List Production) (table : Array Nat) : Array Nat :=
  let lowered := relaxAll ps table
  if h : lowered = table then table
  else
    have := (relaxAll_eq_or_total_lt ps table).resolve_left h
    settle ps lowered
termination_by total table

/-- The least length of what each of `count` nonterminals derives. -/
def leastYields (count : Nat) (ps : List Production) : Array Nat :=
  settle ps (Array.replicate count unproductive)

end LangBench.Grammar
