import LangBench.Proofs.Automaton.InRange
import LangBench.Proofs.Automaton.Search

/-!
The search agrees with recognition by recursion on the word. It is taken here as the plain loop of
`strictSearch`, of which only the proof shows that it comes to an end.
-/

namespace LangBench.Automaton

variable {a : Automaton} {q : StateId}

/-- Whether symbols outside the alphabet are looked for beforehand makes no difference. -/
theorem WellFormed.search_start (ha : a.WellFormed) (q : StateId) (w : Sample) :
    a.search w.toArray ∅ [(q, 0)] = a.acceptsFrom q w := by
  rw [Bool.eq_iff_iff, search_start_iff, ha.acceptsFrom_iff]

theorem WellFormed.strictSearch_start (ha : a.WellFormed) (hq : q < a.states.size) (w : Sample) :
    a.strictSearch w.toArray ∅ [(q, 0)] = some (a.acceptsFrom q w) := by
  have hrange : ∀ m ∈ [((q, 0) : Mark)], Mark.InRange a w.toArray m := by
    intro m hm
    obtain rfl := List.mem_singleton.1 hm
    exact ⟨hq, Nat.zero_le _⟩
  rw [ha.strictSearch_eq hrange, ha.search_start]

/-- From a state of an automaton that has been built, a word without symbols is accepted just if the
state is flagged terminal or has no entry at all, and a longer one just if some target of its first
symbol accepts the rest. The search is a loop that comes to an end with this answer for every word,
also if symbols outside the alphabet are not looked for beforehand. -/
theorem Built.search_agrees_with_recursion (h : a.Built) (hq : q < a.states.size) :
    (a.acceptsFrom q [] = true ↔ a.states[q].terminal = true ∨ a.states[q].transitions = []) ∧
    (∀ x w, a.acceptsFrom q (x :: w) = true ↔
      ∃ t ∈ a.states[q].targets x, a.acceptsFrom t w = true) ∧
    ∀ w, a.strictAcceptsFrom q w = some (a.acceptsFrom q w) ∧
      a.strictSearch w.toArray ∅ [(q, 0)] = some (a.acceptsFrom q w) := by
  have ha := h.wellFormed
  refine ⟨?_, fun x w ↦ ?_, fun w ↦ ⟨ha.strictAcceptsFrom_eq hq w, ha.strictSearch_start hq w⟩⟩
  · rw [ha.acceptsFrom_nil]
    simp [isTerminalAt, hq, State.isTerminal]
  · rw [ha.acceptsFrom_cons]
    simp [targetsOf, hq]

/-- A state that leads to itself and twice to another, from which nothing leads on. -/
theorem search_agrees_with_recursion_cycle :
    ∃ a : Automaton, a.Built ∧ a.acceptsFrom 0 [] = false ∧
      a.strictSearch #[0, 0] ∅ [(0, 0)] = some true ∧
      a.strictSearch #[7] ∅ [(0, 0)] = some false := by
  have hstates : Built ⟨#[⟨[], false⟩, ⟨[], false⟩], 0, 1⟩ := .addStates 2 false (.empty 1)
  have hthree : addTransition ⟨#[⟨[], false⟩, ⟨[], false⟩], 0, 1⟩ 0 0 [0, 1, 1] =
      .ok ⟨#[⟨[(0, [0, 1, 1])], false⟩, ⟨[], false⟩], 0, 1⟩ := rfl
  have hbuilt := hstates.addTransition hthree
  obtain ⟨hnil, hcons, hloop⟩ := Built.search_agrees_with_recursion (q := 0) hbuilt (by decide)
  obtain ⟨hnil', -⟩ := Built.search_agrees_with_recursion (q := 1) hbuilt (by decide)
  have hstop := hnil'.2 (.inr rfl)
  have hyes := (hcons 0 [0]).2 ⟨0, by decide, (hcons 0 []).2 ⟨1, by decide, hstop⟩⟩
  refine ⟨_, hbuilt, ?_, ?_, ?_⟩
  · rw [Bool.eq_false_iff, Ne, hnil]
    simp
  · exact (hloop [0, 0]).2.trans (congrArg some hyes)
  · refine (hloop [7]).2.trans (congrArg some ?_)
    rw [Bool.eq_false_iff, Ne, hcons 7 []]
    rintro ⟨t, ht, -⟩
    exact absurd ht List.not_mem_nil

end LangBench.Automaton
