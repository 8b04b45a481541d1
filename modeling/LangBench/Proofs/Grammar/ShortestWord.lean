import LangBench.Proofs.Grammar.LeastYield
import Mathlib

/-!
The entries of the table of least lengths are the lengths of shortest words.

Sweeps over the productions lower the entries until one of them changes nothing. An entry is then
the length of the shortest word of its nonterminal, or `unproductive` if there is none that is
shorter. As sums stop at the same number, the same holds of rows of items.
-/

namespace LangBench.Grammar

variable {g : Grammar} {row : List Item} {n : Nat}

/-- The length of the shortest word that a row derives, which is infinite if it derives none. -/
noncomputable def leastLength (g : Grammar) (row : List Item) : ℕ∞ :=
  ⨅ (w : Sample) (_ : g.Derives row (wordRow w)), (w.length : ℕ∞)

/-- The table of least lengths after so many sweeps over all productions. -/
def swept (g : Grammar) (k : Nat) : Array Nat :=
  (relaxAll g.productions.toList)^[k] (.replicate g.nonterminals.length unproductive)

/-- Settling sweeps for as long as a sweep changes the table. -/
theorem exists_iterate_settle (ps : List Production) (table : Array Nat) :
    ∃ k, settle ps table = (relaxAll ps)^[k] table ∧
      ∀ j < k, (relaxAll ps)^[j + 1] table ≠ (relaxAll ps)^[j] table := by
  fun_induction settle ps table with
  | case1 table => exact ⟨0, rfl, by simp⟩
  | case2 table lowered hne _ ih =>
    obtain ⟨k, heq, hchanged⟩ := ih
    refine ⟨k + 1, heq, fun j hj ↦ ?_⟩
    cases j with
    | zero => exact hne
    | succ j => exact hchanged j (by omega)

theorem minYields_swept (g : Grammar) :
    ∃ k, g.minYields = g.swept k ∧ g.swept (k + 1) = g.swept k ∧
      ∀ j < k, g.swept (j + 1) ≠ g.swept j := by
  obtain ⟨k, heq, hchanged⟩ := exists_iterate_settle g.productions.toList
    (.replicate g.nonterminals.length unproductive)
  rw [← leastYields, ← g.minYields_eq] at heq
  refine ⟨k, heq, ?_, hchanged⟩
  have hfix := relaxAll_settle g.productions.toList (.replicate g.nonterminals.length unproductive)
  rw [← leastYields, ← g.minYields_eq, heq] at hfix
  rw [swept, Function.iterate_succ_apply']
  exact hfix

theorem minYield_le (g : Grammar) (x : Item) : g.minYield x ≤ unproductive := by
  have htable : ∀ n, g.minYields.getD n unproductive ≤ unproductive := by
    rw [g.minYields_eq]
    refine settle_invariant (fun t ↦ ∀ n, t.getD n unproductive ≤ unproductive)
      (fun t p _ ht n ↦ ?_) fun n ↦ ?_
    · rcases getD_relax t p n with heq | ⟨-, heq⟩
      · rw [heq]
        exact ht n
      · rw [heq, yieldIn_eq]
        exact Nat.min_le_right _ _
    · rw [Array.getD_eq_getD_getElem?, Array.getElem?_replicate]
      split <;> exact Nat.le_refl _
  cases x with
  | terminal x => exact (by decide : 1 ≤ unproductive)
  | nonterminal n => exact htable n

theorem rowYield_singleton (g : Grammar) (x : Item) : g.rowYield [x] = g.minYield x := by
  rw [rowYield_eq, leastSum_cons, leastSum_nil, Nat.add_zero]
  exact Nat.min_eq_left (g.minYield_le x)

/-- What is computed for a row is the length of its shortest word, as far as that counts. -/
theorem WellFormed.rowYield_eq_min (hg : g.WellFormed) (row : List Item) :
    (g.rowYield row : ℕ∞) = min (g.leastLength row) unproductive := by
  rw [rowYield_eq]
  apply le_antisymm
  · refine le_min (le_iInf₂ fun w hw ↦ ?_) (Nat.cast_le.2 (Nat.min_le_right _ _))
    obtain ⟨f, rfl⟩ := derives_wordRow_iff.1 hw
    exact Nat.cast_le.2 ((Nat.min_le_left _ _).trans (hg.leastSum_le f))
  · by_cases hcounts : g.leastSum row < unproductive
    · obtain ⟨f, hf⟩ := exists_forest_of_leastSum_lt hcounts
      calc min (g.leastLength row) unproductive
        _ ≤ g.leastLength row := min_le_left _ _
        _ ≤ (f.yield.length : ℕ∞) := iInf₂_le f.yield f.derives
        _ = (min (g.leastSum row) unproductive : ℕ) := by rw [hf, Nat.min_eq_left hcounts.le]
    · rw [Nat.min_eq_right (Nat.le_of_not_lt hcounts)]
      exact min_le_right _ _

theorem WellFormed.minYield_eq_min (hg : g.WellFormed) (x : Item) :
    (g.minYield x : ℕ∞) = min (g.leastLength [x]) unproductive := by
  rw [← rowYield_singleton, hg.rowYield_eq_min]

/-- A row has a word shorter than `unproductive` just if its shortest word is. -/
theorem leastLength_lt_iff {m : Nat} :
    g.leastLength row < m ↔ ∃ w, g.Derives row (wordRow w) ∧ w.length < m := by
  simp only [leastLength, iInf_lt_iff, Nat.cast_lt, exists_prop]

theorem WellFormed.isProductive_iff (hg : g.WellFormed) :
    g.isProductive n = true ↔
      ∃ w, g.Derives [.nonterminal n] (wordRow w) ∧ w.length < unproductive := by
  rw [← leastLength_lt_iff, isProductive, decide_eq_true_eq]
  have hmin := hg.minYield_eq_min (.nonterminal n)
  have hle := g.minYield_le (.nonterminal n)
  constructor
  · intro hne
    have hlt : (g.minYield (.nonterminal n) : ℕ∞) < unproductive :=
      Nat.cast_lt.2 (Nat.lt_of_le_of_ne hle hne)
    rw [hmin] at hlt
    simpa using hlt
  · intro hlt heq
    rw [heq, min_eq_left hlt.le] at hmin
    exact hlt.ne hmin.symm

/-- The computation of least lengths comes to an end, at the first sweep that changes nothing. Of
every nonterminal, and of the right side of every production, it gives the length of the shortest
word that is derived, but `2 ^ 64 - 1` if there is none or only longer ones. So it tells which
nonterminals derive the empty word and which derive a word that is shorter than that. -/
theorem minYields_are_shortest {text : String} {alphabet : Option (List String)}
    (h : parse? text alphabet = .ok g) :
    (∃ k, g.minYields = g.swept k ∧ g.swept (k + 1) = g.swept k ∧
      ∀ j < k, g.swept (j + 1) ≠ g.swept j) ∧
    (∀ n, (g.minYield (.nonterminal n) : ℕ∞) =
      min (g.leastLength [.nonterminal n]) (2 ^ 64 - 1 : ℕ)) ∧
    (∀ n, g.isNullable n = true ↔ g.Derives [.nonterminal n] []) ∧
    (∀ n, g.isProductive n = true ↔
      ∃ w, g.Derives [.nonterminal n] (wordRow w) ∧ w.length < 2 ^ 64 - 1) ∧
    ∀ p ∈ g.productions,
      (g.rowYield p.rhs : ℕ∞) = min (g.leastLength p.rhs) (2 ^ 64 - 1 : ℕ) := by
  have hg := wellFormed_of_parse? h
  refine ⟨g.minYields_swept, fun n ↦ hg.minYield_eq_min _, fun n ↦ ?_, fun n ↦ hg.isProductive_iff,
    fun p _ ↦ hg.rowYield_eq_min p.rhs⟩
  rw [hg.isNullable_iff]
  exact derives_wordRow_iff.symm

/-- For a start with a shortest word of two symbols, a nonterminal that derives the empty word and
one that derives none, so that a sum stops short. -/
theorem minYields_are_shortest_mixed :
    ∃ g, parse? "S -> A 'a' 'b' | S U\nA ->" none = .ok g ∧
      (∃ k, g.minYields = g.swept k ∧ g.swept (k + 1) = g.swept k) ∧
      min (g.leastLength [.nonterminal 0]) (2 ^ 64 - 1 : ℕ) = 2 ∧
      g.Derives [.nonterminal 1] [] ∧
      (¬ ∃ w, g.Derives [.nonterminal 2] (wordRow w) ∧ w.length < 2 ^ 64 - 1) ∧
      min (g.leastLength [.nonterminal 0, .nonterminal 2]) (2 ^ 64 - 1 : ℕ) =
        (2 ^ 64 - 1 : ℕ) := by
  obtain ⟨g, h, hstart, hempty, hnone, hrow, hsum⟩ :
      ∃ g, parse? "S -> A 'a' 'b' | S U\nA ->" none = .ok g ∧
        g.minYield (.nonterminal 0) = 2 ∧ g.isNullable 1 = true ∧ g.isProductive 2 = false ∧
        g.alternativesOf 0 = [[.nonterminal 1, .terminal 0, .terminal 1],
          [.nonterminal 0, .nonterminal 2]] ∧
        g.rowYield [.nonterminal 0, .nonterminal 2] = 2 ^ 64 - 1 :=
    ⟨_, by cbv, by cbv, by cbv, by cbv, by cbv, by cbv⟩
  obtain ⟨⟨k, hk, hlast, -⟩, hmin, hnull, hproductive, hrows⟩ := minYields_are_shortest h
  refine ⟨g, h, ⟨k, hk, hlast⟩, ?_, (hnull 1).1 hempty, ?_, ?_⟩
  · rw [← hmin, hstart]
    rfl
  · rw [← hproductive, hnone]
    exact Bool.noConfusion
  · rw [← hrows ⟨0, _⟩ (mem_alternativesOf.1 (by simp [hrow])), hsum]

end LangBench.Grammar
