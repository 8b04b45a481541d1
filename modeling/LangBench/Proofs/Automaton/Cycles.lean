import LangBench.Proofs.Automaton.Graph
import Mathlib.Data.Set.Card
import Mathlib.Logic.Relation

/-!
When a walk comes to an end: with a bound on lengths always, and without one just if edges lead to
no cycle. Along every edge fewer nodes can then be reached, so words do not grow forever.
-/

namespace LangBench

namespace Graph

open Relation

variable {g : Graph} {q t : StateId}

def Linked (g : Graph) (q t : StateId) : Prop := ∃ x, ⟨q, t, x⟩ ∈ g.edges

/-- Edges lead from the node to one from which they lead back to it. -/
def ReachesCycle (g : Graph) (q : StateId) : Prop :=
  ∃ t, ReflTransGen g.Linked q t ∧ TransGen g.Linked t t

/-- The nodes that one or more edges lead to. -/
def below (g : Graph) (q : StateId) : Set StateId := {t | TransGen g.Linked q t}

theorem finite_below (g : Graph) (q : StateId) : (g.below q).Finite := by
  apply (List.finite_toSet (g.edges.map GraphEdge.target)).subset
  intro t ht
  obtain ⟨r, -, x, hedge⟩ := TransGen.tail'_iff.1 ht
  exact List.mem_map_of_mem (f := GraphEdge.target) hedge

theorem ReachesCycle.exists_linked (h : g.ReachesCycle q) :
    ∃ t, g.Linked q t ∧ g.ReachesCycle t := by
  obtain ⟨r, hreach, hcycle⟩ := h
  obtain ⟨t, hlink, hrest⟩ := TransGen.head'_iff.1 (TransGen.trans_right hreach hcycle)
  exact ⟨t, hlink, r, hrest, hcycle⟩

theorem ReachesCycle.of_linked (hlink : g.Linked q t) (h : g.ReachesCycle t) :
    g.ReachesCycle q := by
  obtain ⟨r, hreach, hcycle⟩ := h
  exact ⟨r, .head hlink hreach, hcycle⟩

theorem ncard_below_lt (h : ¬ g.ReachesCycle q) (hlink : g.Linked q t) :
    (g.below t).ncard < (g.below q).ncard := by
  apply Set.ncard_lt_ncard _ (g.finite_below q)
  apply (Set.ssubset_iff_of_subset fun r hr ↦ TransGen.head hlink hr).2
  refine ⟨t, .single hlink, fun hcycle ↦ h ?_⟩
  exact ⟨t, .single hlink, hcycle⟩

end Graph

namespace Walk

variable {a : Automaton} {q : StateId} {w w' : Walk} {e : Entry}

/-- After finitely many steps, each of which takes one entry, the queue is empty. -/
def Empties (w : Walk) : Prop := ∃ out w', Steps step w out w' ∧ w'.queue.toList = []

theorem empties_of_layer {maxLength : Option Nat} {n : Nat}
    (h : layer a maxLength n [([], q)] = []) : (a.walkFrom q maxLength).Empties := by
  obtain ⟨queue, hqueue, hsteps⟩ :=
    steps_layer a maxLength n (Queue.toList_singleton (([], q) : Entry))
  exact ⟨_, _, hsteps, hqueue.trans h⟩

theorem layer_eq_nil_of_ncard_lt {n : Nat} (word : List Symbol) (hq : ¬ a.graph.ReachesCycle q)
    (hn : (a.graph.below q).ncard < n) : layer a none n [(word, q)] = [] := by
  induction n generalizing word q with
  | zero => omega
  | succ n ih =>
    rw [layer_succ_edges rfl, List.flatMap_eq_nil_iff]
    intro edge hedge
    obtain ⟨x, t⟩ := edge
    have hlink : a.graph.Linked q t := ⟨x, Automaton.mem_edges_iff.2 hedge⟩
    have hlt := Graph.ncard_below_lt hq hlink
    exact ih (x :: word) (fun ht ↦ hq (.of_linked hlink ht)) (by omega)

/-- Some word in the queue has led to where a cycle can be reached, and may be read on. -/
structure Endless (w : Walk) : Prop where
  maxLength_eq : w.maxLength = none
  exists_entry : ∃ e ∈ w.queue.toList, w.automaton.graph.ReachesCycle e.2

theorem Endless.takes (h : Takes w e w') (hw : w.Endless) : w'.Endless := by
  obtain ⟨rest, hqueue, hqueue'⟩ := h.queue_eq
  refine ⟨h.maxLength_eq.trans hw.maxLength_eq, ?_⟩
  rw [h.automaton_eq, hqueue']
  obtain ⟨f, hf, hcycle⟩ := hw.exists_entry
  rw [hqueue] at hf
  rcases List.mem_cons.1 hf with rfl | hf
  · -- the entry taken is read on along an edge that still leads to the cycle
    obtain ⟨word, q⟩ := f
    obtain ⟨t, ⟨x, hedge⟩, ht⟩ := hcycle.exists_linked
    refine ⟨(x :: word, t), List.mem_append_right _ ?_, ht⟩
    rw [hw.maxLength_eq, grow_eq_edges rfl]
    exact List.mem_map_of_mem (f := fun e : Symbol × StateId ↦ (e.1 :: word, e.2))
      (Automaton.mem_edges_iff.1 hedge)
  · exact ⟨f, List.mem_append_left _ hf, hcycle⟩

theorem Endless.not_empties (hw : w.Endless) : ¬ w.Empties := by
  intro hempties
  obtain ⟨out, w', hsteps, hnil⟩ := hempties
  obtain ⟨e, he, -⟩ := (invariant_of_steps (fun _ _ _ h hw ↦ hw.takes h) hsteps hw).exists_entry
  exact List.not_mem_nil (hnil ▸ he)

theorem endless_walkFrom (h : a.graph.ReachesCycle q) : (a.walkFrom q none).Endless where
  maxLength_eq := rfl
  exists_entry := ⟨([], q), by simp [Automaton.walkFrom], h⟩

end Walk

namespace Automaton

/-- The queue of a walk becomes empty if there is a bound on lengths, whatever it is. If there is
none, it becomes empty just if no cycle can be reached from where the walk begins. -/
theorem walk_empties_iff (a : Automaton) (q : StateId) :
    (∀ bound, (a.walkFrom q (some bound)).Empties) ∧
      ((a.walkFrom q none).Empties ↔ ¬ a.graph.ReachesCycle q) := by
  refine ⟨fun bound ↦ Walk.empties_of_layer (Walk.layer_bound_succ bound q), ?_, ?_⟩
  · intro hempties hcycle
    exact (Walk.endless_walkFrom hcycle).not_empties hempties
  · intro hq
    exact Walk.empties_of_layer (Walk.layer_eq_nil_of_ncard_lt [] hq (Nat.lt_succ_self _))

end Automaton

end LangBench
