import LangBench.Proofs.Random.Below

/-!
A weighted draw gives an element that has weight, whatever the stream of words.
-/

namespace LangBench.Draw

theorem totalWeight_pos {α : Type} {weights : List (α × Nat)} {e : α × Nat} (he : e ∈ weights)
    (hpos : 0 < e.2) : 0 < totalWeight weights := by
  induction weights with
  | nil => simp at he
  | cons f weights ih =>
    have htotal : totalWeight (f :: weights) = f.2 + totalWeight weights := rfl
    rcases List.mem_cons.1 he with rfl | he
    · omega
    · have := ih he
      omega

theorem exists_pick? {α : Type} {weights : List (α × Nat)} {r : Nat} (h : r < totalWeight weights) :
    ∃ e ∈ weights, pick? weights r = some e.1 ∧ 0 < e.2 := by
  induction weights generalizing r with
  | nil => simp [totalWeight] at h
  | cons e weights ih =>
    obtain ⟨x, weight⟩ := e
    unfold pick?
    split
    · next hlt => exact ⟨_, List.mem_cons_self, rfl, Nat.lt_of_le_of_lt (Nat.zero_le r) hlt⟩
    · next hge =>
      have htotal : totalWeight ((x, weight) :: weights) = weight + totalWeight weights := rfl
      obtain ⟨e, he, hpick, hpos⟩ := ih (r := r - weight) (by omega)
      exact ⟨e, List.mem_cons_of_mem _ he, hpick, hpos⟩

/-- If there is any weight, an element that has weight is drawn. -/
theorem exists_weighted {α : Type} {weights : List (α × Nat)} (h : 0 < totalWeight weights)
    (s : WordStream) :
    ∃ e ∈ weights, ((weighted weights).run s).1 = some e.1 ∧ 0 < e.2 := by
  have hlt := belowFair_lt word64_lt h manyTries s
  obtain ⟨e, he, hpick, hpos⟩ := exists_pick? hlt
  refine ⟨e, he, ?_, hpos⟩
  rw [← hpick, weighted, if_neg (Nat.ne_of_gt h)]
  rfl

theorem weighted_eq_none_iff {α : Type} {weights : List (α × Nat)} (s : WordStream) :
    ((weighted weights).run s).1 = none ↔ totalWeight weights = 0 := by
  constructor
  · intro h
    refine Nat.eq_zero_of_not_pos fun hpos ↦ ?_
    obtain ⟨e, -, hsome, -⟩ := exists_weighted hpos s
    simp [hsome] at h
  · intro h
    rw [weighted, if_pos h]
    rfl

end LangBench.Draw
