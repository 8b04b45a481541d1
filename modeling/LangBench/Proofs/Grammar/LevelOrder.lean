import LangBench.Proofs.Grammar.Bounded
import Mathlib

/-!
The order in which derivations come without a depth bound: by height, and those of one height in
the order in which they come if it is the bound.
-/

namespace LangBench.Derivations

open Grammar

variable {g : Grammar} {maxLength : Option Nat}

theorem exists_journal_upTo (hg : g.WellFormed) {depth : Nat}
    (hmod : (ofGrammar g none maxLength).Moderate depth) :
    ∃ m, ∀ n, m ≤ n → ∃ later, journal n (ofGrammar g none maxLength) =
      (treesUpTo g maxLength depth).map (fun t ↦ (t.height, t.yield)) ++ later ∧
      ∀ e ∈ later, depth < e.1 := by
  cases depth with
  | zero =>
    exact ⟨0, fun n _ ↦ ⟨_, rfl, fun e he ↦ level_le_of_mem_journal he⟩⟩
  | succ k =>
    obtain ⟨j, cut, hdone⟩ := levelsDone hg hmod
    obtain ⟨m, hm⟩ := hdone.journal
    refine ⟨m, fun n hn ↦ ?_⟩
    obtain ⟨n, rfl⟩ := Nat.exists_eq_add_of_le hn
    refine ⟨_, hm n, fun e he ↦ ?_⟩
    cases cut with
    | false => simp [journal_done (step_atLevel_done g maxLength j)] at he
    | true =>
      cases n with
      | zero => simp [journal] at he
      | succ n =>
        rw [journal_skip (step_atLevel_cut g maxLength j)] at he
        have hlevel := level_le_of_mem_journal he
        rwa [hdone.eq_of_cut rfl] at hlevel

/-- Without a depth bound samples come level by level. Those of a level are what the trees of that
height yield that is short enough, each tree once and in the order in which the trees within the
level are listed if it is the bound. So the levels up to a depth together hand out what is listed if
this depth is the bound, in another order. -/
theorem levels_in_turn {text : String} {alphabet : Option (List String)} {g : Grammar}
    (h : parse? text alphabet = .ok g) (maxLength : Option Nat) {depth : Nat}
    (hmod : (ofGrammar g none maxLength).Moderate depth) :
    (∃ m, ∀ n, m ≤ n → ∃ later, journal n (ofGrammar g none maxLength) =
      (treesUpTo g maxLength depth).map (fun t ↦ (t.height, t.yield)) ++ later ∧
      ∀ e ∈ later, depth < e.1) ∧
    (∀ k, k ≤ depth →
      Lists step (ofGrammar g (some k) maxLength) ((treesWithin g maxLength k).map Forest.yield) ∧
      (treesWithin g maxLength k).Nodup ∧
      ∀ t, t ∈ treesWithin g maxLength k ↔
        t.height ≤ k ∧ WithinLength maxLength t.yield.length) ∧
    (treesUpTo g maxLength depth).Nodup ∧
    (treesUpTo g maxLength depth).Perm (treesWithin g maxLength depth) := by
  have hg := wellFormed_of_parse? h
  refine ⟨exists_journal_upTo hg hmod, fun k hk ↦ ⟨?_, ?_, fun t ↦ mem_treesWithin⟩, ?_, ?_⟩
  · exact lists_bounded hg ((hmod.mono hk).bounded hg 0)
  · exact nodup_treesWithin g maxLength k
  · exact nodup_treesUpTo g maxLength depth
  · exact treesUpTo_perm g maxLength depth

/-- Sums count at any level if the start can be doubled, replaced by a terminal or dropped: there is
never more than one terminal among the pending items. -/
theorem moderate_of_doubling
    (hg : g.alternativesOf 0 = [[.nonterminal 0, .nonterminal 0], [.terminal 0], []])
    (maxDepth maxLength : Option Nat) (level : Nat) :
    (ofGrammar g maxDepth maxLength).Moderate level := by
  have hstart : g.shortest (.nonterminal 0) = 0 := by
    refine Nat.le_zero.1 (shortest_le (w := []) ?_)
    exact yields_nonterminal_iff.2 ⟨[], mem_alternativesOf.1 (by simp [hg]), yields_nil_iff.2 rfl⟩
  have hkept : KeptRow g fun row ↦ ∃ k, row = List.replicate k (.nonterminal 0) ∨
      row = .terminal 0 :: List.replicate k (.nonterminal 0) := by
    refine ⟨⟨1, .inl rfl⟩, ?_, ?_⟩
    · rintro t row ⟨k, hrow | hrow⟩
      · cases k <;> simp [List.replicate_succ] at hrow
      · exact ⟨k, .inl (List.cons.inj hrow).2⟩
    · rintro n row ⟨k, hrow | hrow⟩ alt halt
      · cases k with
        | zero => simp at hrow
        | succ k =>
          rw [List.replicate_succ, List.cons.injEq, Item.nonterminal.injEq] at hrow
          obtain ⟨rfl, rfl⟩ := hrow
          rw [hg] at halt
          simp only [List.mem_cons, List.not_mem_nil, or_false] at halt
          rcases halt with rfl | rfl | rfl
          · exact ⟨k + 2, .inl rfl⟩
          · exact ⟨k, .inr rfl⟩
          · exact ⟨k, .inl rfl⟩
      · simp at hrow
  refine hkept.moderate (fun row hrow _ ↦ ?_) maxDepth maxLength level
  obtain ⟨k, rfl | rfl⟩ := hrow
  · simp [hstart, unproductive]
  · have hterminal := shortest_terminal_le g 0
    simp only [List.map_cons, List.map_replicate, hstart, List.sum_cons, List.sum_replicate,
      smul_zero, Nat.add_zero]
    exact Nat.lt_of_le_of_lt hterminal (by decide)

/-- An ambiguous grammar with a tree of height 1 and two of height 2. -/
theorem levels_in_turn_doubling :
    ∃ g, parse? "S -> S S | 'a' |" none = .ok g ∧
      (∃ m, ∀ n, m ≤ n → ∃ later, journal n (ofGrammar g none none) =
        [(1, []), (2, []), (2, [0])] ++ later ∧ ∀ e ∈ later, 2 < e.1) ∧
      Lists step (ofGrammar g (some 2) none) [[], [0], []] := by
  obtain ⟨g, h, hrows, hupTo, hwithin⟩ : ∃ g, parse? "S -> S S | 'a' |" none = .ok g ∧
      g.alternativesOf 0 = [[.nonterminal 0, .nonterminal 0], [.terminal 0], []] ∧
      (treesUpTo g none 2).map (fun t ↦ (t.height, t.yield)) = [(1, []), (2, []), (2, [0])] ∧
      (treesWithin g none 2).map Forest.yield = [[], [0], []] :=
    ⟨_, by cbv, by cbv, by cbv, by cbv⟩
  obtain ⟨hjournal, hbounded, -⟩ := levels_in_turn h none (moderate_of_doubling hrows none none 2)
  rw [hupTo] at hjournal
  have hlists := (hbounded 2 (Nat.le_refl 2)).1
  rw [hwithin] at hlists
  exact ⟨g, h, hjournal, hlists⟩

end LangBench.Derivations
