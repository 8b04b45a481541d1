import LangBench.Proofs.Grammar.Exhaustion

/-!
A finite language is enumerated to its end, unless one of its words has infinitely many trees.

Nothing is asked of the sums of least lengths here. What counts is that a level comes to its end
whatever is on the stack, and that a branch which is cut short could be completed to a tree that is
higher than the level.
-/

namespace LangBench.Derivations

open Grammar

variable {g : Grammar} {maxLength : Option Nat} {level : Nat}

/-- Every pending item has trees, and each of them occurs in a tree of the start, as far down as the
budget of the item tells. -/
def Completable (g : Grammar) (level : Nat) (f : Frame) : Prop :=
  ∀ p ∈ f.pending, Nonempty (g.Forest [p.1]) ∧
    ∀ t : g.Forest [p.1], ∃ t' : g.Tree, level + t.height ≤ t'.height + p.2

theorem Completable.expand {f f' : Frame} {x : Item} {budget : Nat} {pending : List (Item × Nat)}
    (h : Completable g level f) (hpending : f.pending = (x, budget + 1) :: pending)
    (hf' : f' ∈ expand g maxLength (afterNext g f x (budget + 1) pending) budget x) :
    Completable g level f' := by
  rw [Completable, hpending, List.forall_mem_cons] at h
  obtain ⟨⟨-, hx⟩, hrest⟩ := h
  obtain ⟨-, ⟨t, rfl, rfl⟩ | ⟨n, rfl, row, hrow, hproductive, rfl⟩⟩ := of_mem_expand hf'
  · exact hrest
  · obtain ⟨f₀⟩ := nonempty_forest_of_rowYield hproductive
    refine List.forall_mem_append.2 ⟨?_, hrest⟩
    intro p hp
    obtain ⟨y, hy, rfl⟩ := List.mem_map.1 hp
    obtain ⟨hne, hthrough⟩ := f₀.exists_through hrow hy
    refine ⟨hne, fun t ↦ ?_⟩
    obtain ⟨t', hle⟩ := hthrough t
    obtain ⟨t'', hle'⟩ := hx t'
    exact ⟨t'', by omega⟩

end LangBench.Derivations
