import LangBench.Proofs.Grammar.LevelOrder
import LangBench.Proofs.Grammar.Words

/-!
With a depth bound derivations come in the order of a plain recursion, which replaces the leftmost
item by each of its alternatives in turn.
-/

namespace LangBench

namespace Grammar

variable {g : Grammar}

/-- No right side of a production is longer. -/
def width (g : Grammar) : Nat := (g.productions.toList.map fun p ↦ p.rhs.length).sum

theorem length_le_width {n : Nat} {alt : List Item} (h : alt ∈ g.alternativesOf n) :
    alt.length ≤ g.width := by
  have hmem : ⟨n, alt⟩ ∈ g.productions.toList := Array.mem_toList_iff.2 (mem_alternativesOf.1 h)
  exact List.single_le_sum (fun _ _ ↦ Nat.zero_le _) _
    (List.mem_map_of_mem (f := fun p : Production ↦ p.rhs.length) hmem)

/-- What pending items have left. Expanding an item makes it less. -/
def weight (g : Grammar) (pending : List (Item × Nat)) : Nat :=
  (pending.map fun p ↦ (g.width + 1) ^ p.2).sum

theorem weight_cons (p : Item × Nat) (pending : List (Item × Nat)) :
    g.weight (p :: pending) = (g.width + 1) ^ p.2 + g.weight pending := rfl

theorem weight_expand_lt {n : Nat} {alt : List Item} (h : alt ∈ g.alternativesOf n)
    (x : Item) (budget : Nat) (pending : List (Item × Nat)) :
    g.weight (alt.map (·, budget) ++ pending) < g.weight ((x, budget + 1) :: pending) := by
  have hlen := length_le_width h
  have hrow : g.weight (alt.map (·, budget) ++ pending) =
      alt.length * (g.width + 1) ^ budget + g.weight pending := by
    simp [weight, Function.comp_def]
  rw [hrow, weight_cons, Nat.pow_succ, Nat.mul_comm]
  apply Nat.add_lt_add_right
  exact Nat.mul_lt_mul_of_pos_left (Nat.lt_succ_of_le hlen) (Nat.pow_pos (Nat.succ_pos _))

/-- The words that pending items lead to within their budgets. The leftmost item is replaced by each
of its alternatives in turn, whose items have a budget that is less by one. -/
def leftmostWords (g : Grammar) : List (Item × Nat) → List Sample
  | [] => [[]]
  | (_, 0) :: _ => []
  | (.terminal x, _ + 1) :: pending => (g.leftmostWords pending).map (x :: ·)
  | (.nonterminal n, budget + 1) :: pending =>
    (g.alternativesOf n).attach.flatMap fun alt ↦ g.leftmostWords (alt.1.map (·, budget) ++ pending)
termination_by pending => g.weight pending
decreasing_by
  · rw [weight_cons]
    exact Nat.lt_add_of_pos_left (Nat.pow_pos (Nat.succ_pos _))
  · exact weight_expand_lt alt.2 _ budget pending

theorem leftmostWords_nonterminal_cons (n budget : Nat) (pending : List (Item × Nat)) :
    g.leftmostWords ((.nonterminal n, budget + 1) :: pending) =
      (g.alternativesOf n).flatMap fun alt ↦ g.leftmostWords (alt.map (·, budget) ++ pending) := by
  rw [leftmostWords]
  simp

theorem leftmostWords_eq_endings (pending : List (Item × Nat)) :
    g.leftmostWords pending = g.endings pending := by
  induction pending using pending_induction (g := g) with
  | nil => rw [leftmostWords, endings]
  | cut x pending => rw [leftmostWords, endings_zero_cons]
  | terminal x budget pending ih => rw [leftmostWords, endings_terminal_cons, ih]
  | nonterminal n budget pending ih =>
    rw [leftmostWords_nonterminal_cons, endings_nonterminal_cons]
    exact List.flatMap_congr ih

/-- The recursion goes through the trees of a row in their order. -/
theorem leftmostWords_eq (budget : Nat) (row : List Item) :
    g.leftmostWords (row.map (·, budget)) = (g.forests budget row).map Forest.yield := by
  rw [leftmostWords_eq_endings, ← List.append_nil (row.map _), endings_budgeted]
  simp [endings, wordsWithin]

end Grammar

namespace Derivations

open Grammar

/-- With a depth bound, as long as sums of least lengths count, the enumeration comes to its end. It
lists what the trees within the bound yield that is short enough, each tree once and in the order of
the alternatives that its leftmost derivation chooses; and that is what the recursion lists. -/
theorem bounded_in_leftmost_order {text : String} {alphabet : Option (List String)} {g : Grammar}
    (h : parse? text alphabet = .ok g) (maxLength : Option Nat) (depth : Nat)
    (hmod : (ofGrammar g (some depth) maxLength).Moderate depth) :
    ∃ trees : List g.Tree,
      Lists step (ofGrammar g (some depth) maxLength) (trees.map Forest.yield) ∧
      (∀ t, t ∈ trees ↔ t.height ≤ depth ∧ WithinLength maxLength t.yield.length) ∧
      trees.Nodup ∧ trees.Pairwise (fun t t' ↦ t.choices < t'.choices) ∧
      trees.map Forest.yield =
        (g.leftmostWords [(.nonterminal g.start, depth)]).filter
          fun w ↦ WithinLength maxLength w.length := by
  refine ⟨treesWithin g maxLength depth, lists_bounded (wellFormed_of_parse? h) hmod,
    fun t ↦ mem_treesWithin, nodup_treesWithin g maxLength depth, ?_, ?_⟩
  · exact ((g.pairwise_forests depth _).filter _).imp Earlier.lt
  · have hwords := g.leftmostWords_eq depth [.nonterminal g.start]
    rw [List.map_singleton] at hwords
    rw [hwords, List.filter_map]
    rfl

/-- An ambiguous grammar, in which a word has several trees that do not come next to each other. -/
theorem bounded_in_leftmost_order_doubling :
    ∃ g, parse? "S -> S S | 'a' |" none = .ok g ∧
      Lists step (ofGrammar g (some 3) (some 1))
        [[], [0], [], [0], [0], [], [0], [], [0], []] := by
  obtain ⟨g, h, hrows, hwords⟩ : ∃ g, parse? "S -> S S | 'a' |" none = .ok g ∧
      g.alternativesOf 0 = [[.nonterminal 0, .nonterminal 0], [.terminal 0], []] ∧
      (g.leftmostWords [(.nonterminal 0, 3)]).filter (fun w ↦ w.length ≤ 1) =
        [[], [0], [], [0], [0], [], [0], [], [0], []] :=
    ⟨_, by cbv, by cbv, by cbv⟩
  obtain ⟨trees, hlists, -, -, -, hrec⟩ :=
    bounded_in_leftmost_order h (some 1) 3 (moderate_of_doubling hrows _ _ _)
  have hsame : trees.map Forest.yield =
      (g.leftmostWords [(.nonterminal 0, 3)]).filter (fun w ↦ w.length ≤ 1) := by
    rw [hrec]
    exact List.filter_congr fun w _ ↦ by simp [WithinLength]
  rw [hsame, hwords] at hlists
  exact ⟨g, h, hlists⟩

end Derivations

end LangBench
