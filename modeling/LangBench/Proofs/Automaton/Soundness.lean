import LangBench.Proofs.Automaton.Layers
import Mathlib.Algebra.Order.BigOperators.Group.List
import Mathlib.Algebra.Order.Ring.Nat

/-!
Whatever a walk hands out, with or without a bound on lengths, the search accepts: what has been
handed out so far are words up to some length, the shorter ones first.
-/

namespace LangBench

namespace Walk

variable {a : Automaton} {q : StateId} {w w' : Walk} {out : List Sample}

/-- Words only grow, so a run hands out none that is shorter than all of the queue. -/
theorem le_length_of_steps {n : Nat} (h : Steps step w out w')
    (hw : ∀ e ∈ w.queue.toList, n ≤ e.1.length) : ∀ x ∈ out, n ≤ x.length := by
  intro x hx
  obtain ⟨e, he, rfl⟩ := exists_entry_of_steps (P := fun e ↦ n ≤ e.1.length)
    (fun e he f hf ↦ by rw [length_of_mem_grow hf]; omega) h hw x hx
  rwa [List.length_reverse]

theorem prefix_of_steps (h : Steps step (a.walkFrom q none) out w) :
    ∃ n, out <+: (List.range n).flatMap (a.wordsFrom · q) := by
  obtain ⟨n, hn⟩ : ∃ n, ∀ x ∈ out, x.length < n :=
    ⟨(out.map List.length).sum + 1, fun x hx ↦ Nat.lt_succ_of_le
      (List.single_le_sum (fun _ _ ↦ Nat.zero_le _) _ (List.mem_map_of_mem hx))⟩
  obtain ⟨w', hqueue, hsteps⟩ := exists_steps_walkFrom a q n
  refine ⟨n, ?_⟩
  obtain ⟨more, hmore, -⟩ | ⟨more, rfl, hrest⟩ := h.comparable hsteps
  · exact ⟨more, hmore.symm⟩
  · -- all that comes after the words shorter than `n` is too long to be in `out`
    have hlong := le_length_of_steps hrest fun e he ↦ (hqueue e he).ge
    have hnil : more = [] := by
      rw [List.eq_nil_iff_forall_not_mem]
      intro x hx
      have := hn x (List.mem_append_right _ hx)
      have := hlong x hx
      omega
    rw [hnil, List.append_nil]

theorem mem_wordsFrom_of_handsOut {maxLength : Option Nat} {x : Sample}
    (h : HandsOut step (a.walkFrom q maxLength) x) : x ∈ a.wordsFrom x.length q := by
  have hwords : ∃ n, x ∈ (List.range n).flatMap (a.wordsFrom · q) := by
    cases maxLength with
    | some bound => exact ⟨bound + 1, (lists_walkFrom a q bound).mem_iff.1 h⟩
    | none =>
      obtain ⟨out, w, hsteps, hx⟩ := handsOut_iff.1 h
      obtain ⟨n, hprefix⟩ := prefix_of_steps hsteps
      exact ⟨n, hprefix.subset hx⟩
  obtain ⟨n, hmem⟩ := hwords
  obtain ⟨k, -, hk⟩ := List.mem_flatMap.1 hmem
  rwa [Automaton.length_of_mem_wordsFrom hk]

end Walk

namespace Automaton

variable {a : Automaton} {q : StateId} {maxLength : Option Nat} {x : Sample}

theorem WellFormed.acceptsFrom_of_handsOut (ha : a.WellFormed)
    (h : HandsOut Walk.step (a.walkFrom q maxLength) x) : a.acceptsFrom q x = true :=
  (ha.mem_wordsFrom_iff x).1 (Walk.mem_wordsFrom_of_handsOut h)

theorem WellFormed.accepts_of_handsOut (ha : a.WellFormed)
    (h : HandsOut Walk.step (a.walk maxLength) x) : a.accepts x = true := by
  revert h
  unfold walk accepts
  cases a.start? with
  | some q => exact fun h ↦ ha.acceptsFrom_of_handsOut h
  | none =>
    intro h
    obtain ⟨out, w, hsteps, hx⟩ := handsOut_iff.1 h
    obtain ⟨rfl, -⟩ := Steps.of_done rfl hsteps
    exact absurd hx List.not_mem_nil

end Automaton

end LangBench
