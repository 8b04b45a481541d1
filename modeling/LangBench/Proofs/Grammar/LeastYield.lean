import LangBench.Proofs.Grammar.WellFormed
import Mathlib.Algebra.GroupWithZero.Nat
import Mathlib.Algebra.Order.BigOperators.Group.List
import Mathlib.Algebra.Order.Ring.Nat

/-!
The least lengths that are computed are the least lengths of derived words, as far as they count.
-/

namespace LangBench.Grammar

section Table

variable {ps : List Production} {table : Array Nat} {p : Production}

theorem foldl_addYield (items : List Item) {acc : Nat} (h : acc ≤ unproductive) :
    items.foldl (fun acc x ↦ addYield acc (x.yieldIn table)) acc =
      min (acc + (items.map (·.yieldIn table)).sum) unproductive := by
  induction items generalizing acc with
  | nil => exact (Nat.min_eq_left h).symm
  | cons x items ih =>
    have hacc : addYield acc (x.yieldIn table) ≤ unproductive := Nat.min_le_right _ _
    rw [List.foldl_cons, ih hacc, List.map_cons, List.sum_cons, addYield]
    omega

theorem yieldIn_eq (items : List Item) :
    yieldIn table items = min (items.map (·.yieldIn table)).sum unproductive := by
  rw [yieldIn, foldl_addYield items (Nat.zero_le _), Nat.zero_add]

theorem yieldIn_le_sum {row : List Item} {x : Item} (h : x ∈ row) :
    x.yieldIn table ≤ (row.map (·.yieldIn table)).sum :=
  List.single_le_sum (fun _ _ ↦ Nat.zero_le _) _ (List.mem_map_of_mem h)

theorem yieldIn_ne_of_sum_lt {row : List Item}
    (h : (row.map (·.yieldIn table)).sum < unproductive) :
    ∀ x ∈ row, x.yieldIn table ≠ unproductive :=
  fun _ hx ↦ Nat.ne_of_lt (Nat.lt_of_le_of_lt (yieldIn_le_sum hx) h)

theorem getD_relax (table : Array Nat) (p : Production) (n : Nat) :
    (relax table p).getD n unproductive = table.getD n unproductive ∨
      n = p.lhs ∧ (relax table p).getD n unproductive = yieldIn table p.rhs := by
  simp only [relax]
  split
  · simp only [Array.getD_eq_getD_getElem?, Array.getElem?_setIfInBounds]
    split
    · next h =>
      subst h
      split
      · exact .inr ⟨rfl, rfl⟩
      · next hn => exact .inl (by simp [hn])
    · exact .inl rfl
  · exact .inl rfl

theorem settle_invariant (I : Array Nat → Prop) (hrelax : ∀ t, ∀ p ∈ ps, I t → I (relax t p))
    (h : I table) : I (settle ps table) := by
  have hall (qs : List Production) (hqs : ∀ p ∈ qs, p ∈ ps) (t : Array Nat) (ht : I t) :
      I (relaxAll qs t) := by
    induction qs generalizing t with
    | nil => exact ht
    | cons q qs ih =>
      obtain ⟨hq, hqs⟩ := List.forall_mem_cons.1 hqs
      exact ih hqs _ (hrelax t q hq ht)
  fun_induction settle ps table with
  | case1 => exact h
  | case2 table lowered _ _ ih => exact ih (hall ps (fun _ ↦ id) table h)

theorem relaxAll_settle (ps : List Production) (table : Array Nat) :
    relaxAll ps (settle ps table) = settle ps table := by
  fun_induction settle ps table with
  | case1 table lowered h => exact h
  | case2 table lowered _ _ ih => exact ih

/-- A table that all productions together leave as it is, each of them leaves as it is. -/
theorem relax_eq_of_relaxAll_eq (h : relaxAll ps table = table) (hp : p ∈ ps) :
    relax table p = table := by
  induction ps with
  | nil => simp at hp
  | cons q ps ih =>
    have hcons : relaxAll (q :: ps) table = relaxAll ps (relax table q) := rfl
    rw [hcons] at h
    have hq : relax table q = table := by
      -- an entry that was lowered is never raised again
      refine (relax_eq_or_total_lt table q).resolve_right fun hlt ↦ ?_
      rcases relaxAll_eq_or_total_lt ps (relax table q) with heq | hlt'
      · rw [← heq, h] at hlt
        exact Nat.lt_irrefl _ hlt
      · rw [h] at hlt'
        exact Nat.lt_asymm hlt hlt'
    rcases List.mem_cons.1 hp with rfl | hp
    · exact hq
    · exact ih (by rwa [hq] at h) hp

theorem size_relax (table : Array Nat) (p : Production) : (relax table p).size = table.size := by
  simp only [relax]
  split
  · exact Array.size_setIfInBounds
  · rfl

/-- No entry is greater than what a production of its nonterminal gives. -/
theorem getD_leastYields_le {count : Nat} (hp : p ∈ ps) (hlhs : p.lhs < count) :
    (leastYields count ps).getD p.lhs unproductive ≤ yieldIn (leastYields count ps) p.rhs := by
  have hsize : (leastYields count ps).size = count := by
    refine settle_invariant (fun t ↦ t.size = count) (fun t p _ ht ↦ ?_) Array.size_replicate
    rw [size_relax, ht]
  have hfix := relax_eq_of_relaxAll_eq
    (relaxAll_settle ps (Array.replicate count unproductive)) hp
  rw [← leastYields] at hfix
  refine Nat.le_of_not_lt fun hlt ↦ ?_
  rw [relax, if_pos hlt] at hfix
  have hget := congrArg (·.getD p.lhs unproductive) hfix
  simp only [Array.getD_eq_getD_getElem?, Array.getElem?_setIfInBounds, if_true, hsize, hlhs,
    Option.getD_some] at hget
  rw [Array.getD_eq_getD_getElem?, ← hget] at hlt
  exact Nat.lt_irrefl _ hlt

end Table

variable {g : Grammar} {row row' : List Item} {x : Item} {n : Nat}

def leastSum (g : Grammar) (row : List Item) : Nat := (row.map g.minYield).sum

@[simp] theorem leastSum_nil : g.leastSum [] = 0 := rfl

@[simp] theorem leastSum_cons : g.leastSum (x :: row) = g.minYield x + g.leastSum row := rfl

@[simp] theorem leastSum_append : g.leastSum (row ++ row') = g.leastSum row + g.leastSum row' := by
  simp [leastSum]

theorem minYield_le_leastSum (h : x ∈ row) : g.minYield x ≤ g.leastSum row :=
  yieldIn_le_sum h

theorem minYield_ne_of_leastSum_lt (h : g.leastSum row < unproductive) :
    ∀ x ∈ row, g.minYield x ≠ unproductive := yieldIn_ne_of_sum_lt h

theorem rowYield_eq (g : Grammar) (row : List Item) :
    g.rowYield row = min (g.leastSum row) unproductive := yieldIn_eq row

theorem leastSum_lt_of_rowYield (h : g.rowYield row ≠ unproductive) :
    g.leastSum row < unproductive := by
  rw [rowYield_eq] at h
  omega

/-- No word of a row is shorter than the least lengths of its items allow. -/
theorem WellFormed.leastSum_le (hg : g.WellFormed) (f : g.Forest row) :
    g.leastSum row ≤ f.yield.length := by
  induction f with
  | nil => exact Nat.le_refl _
  | terminal x rest ih =>
    rw [leastSum_cons, Forest.yield, List.length_cons, minYield, Item.yieldIn]
    omega
  | expand n i children rest ihc ihr =>
    have hp := mem_alternativesOf.1 (List.get_mem (g.alternativesOf n) i)
    have hle : g.minYield (.nonterminal n) ≤ g.rowYield ((g.alternativesOf n).get i) := by
      have := getD_leastYields_le (Array.mem_toList_iff.2 hp) (hg.lhs_lt _ hp)
      rwa [← g.minYields_eq] at this
    rw [rowYield_eq] at hle
    rw [leastSum_cons, Forest.yield, List.length_append]
    omega

/-- The least length is 0 where one of the alternatives is empty. -/
theorem WellFormed.minYield_eq_zero (hg : g.WellFormed) (h : [] ∈ g.alternativesOf n) :
    g.minYield (.nonterminal n) = 0 := by
  obtain ⟨t, ht, -⟩ := Forest.exists_expand h .nil
  have hle : g.minYield (.nonterminal n) + 0 ≤ t.yield.length := hg.leastSum_le t
  rw [ht] at hle
  exact Nat.le_zero.1 hle

/-- Entries that count are lengths of derived words. -/
def Attained (g : Grammar) (table : Array Nat) : Prop :=
  ∀ n, table.getD n unproductive ≠ unproductive →
    ∃ w, g.Yields [.nonterminal n] w ∧ w.length = table.getD n unproductive

theorem Attained.exists_yields {table : Array Nat} (ht : g.Attained table)
    (h : ∀ x ∈ row, x.yieldIn table ≠ unproductive) :
    ∃ w, g.Yields row w ∧ w.length = (row.map (·.yieldIn table)).sum := by
  induction row with
  | nil => exact ⟨[], yields_nil_iff.2 rfl, rfl⟩
  | cons x row ih =>
    rw [List.map_cons, List.sum_cons]
    obtain ⟨hx, hrow⟩ := List.forall_mem_cons.1 h
    obtain ⟨v, hv, hlen⟩ := ih hrow
    cases x with
    | terminal x =>
      exact ⟨x :: v, yields_terminal_cons_iff.2 ⟨v, rfl, hv⟩, by simp [hlen, Item.yieldIn]; omega⟩
    | nonterminal n =>
      obtain ⟨u, hu, hlen'⟩ := ht n hx
      refine ⟨u ++ v, yields_append_iff.2 ⟨u, v, hu, hv, rfl⟩, ?_⟩
      rw [List.length_append, hlen, hlen', Item.yieldIn]

theorem attained_minYields (g : Grammar) : g.Attained g.minYields := by
  rw [g.minYields_eq]
  refine settle_invariant g.Attained (fun t p hp ht n hn ↦ ?_) fun n hn ↦ ?_
  · rcases getD_relax t p n with heq | ⟨rfl, heq⟩
    · rw [heq] at hn ⊢
      exact ht n hn
    · rw [heq, yieldIn_eq] at hn ⊢
      have hsum : (p.rhs.map (·.yieldIn t)).sum < unproductive := by omega
      obtain ⟨w, hw, hlen⟩ := ht.exists_yields (yieldIn_ne_of_sum_lt hsum)
      exact ⟨w, yields_nonterminal_iff.2 ⟨p.rhs, Array.mem_toList_iff.1 hp, hw⟩, by omega⟩
  · refine absurd ?_ hn
    rw [Array.getD_eq_getD_getElem?, Array.getElem?_replicate]
    split <;> rfl

/-- If none of its items derives nothing, a row derives a word as short as the least lengths of its
items allow, even where their sum does not count. -/
theorem exists_forest_of_minYield_ne (h : ∀ x ∈ row, g.minYield x ≠ unproductive) :
    ∃ f : g.Forest row, f.yield.length = g.leastSum row := by
  obtain ⟨w, ⟨f, rfl⟩, hlen⟩ := g.attained_minYields.exists_yields h
  exact ⟨f, hlen⟩

theorem exists_forest_of_leastSum_lt (h : g.leastSum row < unproductive) :
    ∃ f : g.Forest row, f.yield.length = g.leastSum row :=
  exists_forest_of_minYield_ne (minYield_ne_of_leastSum_lt h)

theorem nonempty_forest_of_rowYield (h : g.rowYield row ≠ unproductive) :
    Nonempty (g.Forest row) := by
  obtain ⟨f, -⟩ := exists_forest_of_leastSum_lt (leastSum_lt_of_rowYield h)
  exact ⟨f⟩

theorem WellFormed.isNullable_iff (hg : g.WellFormed) :
    g.isNullable n = true ↔ g.Yields [.nonterminal n] [] := by
  rw [isNullable, decide_eq_true_eq]
  constructor
  · intro h
    have hsum : g.leastSum [.nonterminal n] = 0 := h
    have hlt : g.leastSum [.nonterminal n] < unproductive := by rw [hsum]; decide
    obtain ⟨f, hf⟩ := exists_forest_of_leastSum_lt hlt
    exact ⟨f, List.eq_nil_of_length_eq_zero (hf.trans hsum)⟩
  · intro hex
    obtain ⟨f, hf⟩ := hex
    have := hg.leastSum_le f
    rw [hf] at this
    exact Nat.le_zero.1 this

end LangBench.Grammar
