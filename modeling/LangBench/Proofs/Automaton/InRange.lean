import LangBench.Automaton.Graph
import LangBench.Automaton.Recognition
import LangBench.Automaton.Walk
import LangBench.Proofs.Automaton.Calls
import LangBench.Proofs.Automaton.Layers
import Mathlib

/-!
No state that does not exist is ever looked up.

The search, the walk and the graph pass over states that do not exist. Here each has a strict form
that gives up, with `none`, where it would look one up; on an automaton that has been built the
strict form never gives up and comes to the same.
-/

namespace LangBench

open Std (HashSet)

namespace Automaton

/-- The search as a plain loop, which may also go on forever. -/
def strictSearch (a : Automaton) (word : Array Symbol) (seen : HashSet Mark) :
    List Mark → Option Bool
  | [] => some false
  | (q, i) :: stack =>
    if seen.contains (q, i) then a |>.strictSearch word seen stack
    else do
      let s ← a.states[q]?
      match word[i]? with
      | none =>
        if s.isTerminal then some true else a |>.strictSearch word (seen.insert (q, i)) stack
      | some x =>
        a |>.strictSearch word (seen.insert (q, i))
          ((s.targets x).map (fun t ↦ (t, i + 1)) ++ stack)
partial_fixpoint

def strictAcceptsFrom (a : Automaton) (q : StateId) (word : Sample) : Option Bool :=
  if word.withinAlphabet a.alphabetSize then a.strictSearch word.toArray ∅ [(q, 0)]
  else some false

/-- An edge that leaves a state, its ends looked up among the nodes. -/
def strictEdge (a : Automaton) (q : StateId) (e : Symbol × StateId) : Option GraphEdge := do
  let source ← a.graph.nodes[q]?
  let target ← a.graph.nodes[e.2]?
  return ⟨source.id, target.id, e.1⟩

def strictGraph (a : Automaton) : Option Graph := do
  let edges ← a.states.toList.zipIdx.mapM fun (s, q) ↦ s.edges.mapM (a.strictEdge q)
  return ⟨a.graph.nodes, edges.flatten⟩

end Automaton

/-- A step of the walk, which needs the state that a word has led to. -/
def Walk.strictStep (w : Walk) : Option (Step Walk) :=
  match w.queue.pop? with
  | none => some .done
  | some ((word, q), queue) => do
    let s ← w.automaton.states[q]?
    let next := { w with queue := queue.pushAll (children w.maxLength word s) }
    return if s.isTerminal then .emit word.reverse next else .skip next

namespace Automaton

variable {a : Automaton} {q : StateId} {word : Array Symbol} {seen : HashSet Mark}
  {stack : List Mark}

/-- A mark of a state that exists, at a place of the word or at its end. -/
def Mark.InRange (a : Automaton) (word : Array Symbol) (m : Mark) : Prop :=
  m.1 < a.states.size ∧ m.2 ≤ word.size

theorem WellFormed.inRange_successors (ha : a.WellFormed) (hq : q < a.states.size) (i : Nat) :
    ∀ m ∈ successors a.states[q] word i, Mark.InRange a word m := by
  intro m hm
  unfold successors at hm
  split at hm
  · next x hx =>
    obtain ⟨t, ht, rfl⟩ := List.mem_map.1 hm
    obtain ⟨hi, -⟩ := Array.getElem?_eq_some_iff.1 hx
    exact ⟨(ha.states _ (Array.getElem_mem hq)).lt_of_mem_targets ht, hi⟩
  · simp at hm

theorem WellFormed.strictSearch_eq (ha : a.WellFormed)
    (hstack : ∀ m ∈ stack, Mark.InRange a word m) :
    a.strictSearch word seen stack = some (a.search word seen stack) := by
  induction seen, stack using search.induct a word with
  | case1 seen =>
    rw [strictSearch, search]
  | case2 seen q i stack h hq _ ih =>
    obtain ⟨⟨-, hi⟩, hrest⟩ := List.forall_mem_cons.1 hstack
    have hnext := ih fun m hm ↦ (List.mem_append.1 hm).elim (ha.inRange_successors hq i m) (hrest m)
    rw [strictSearch, search, dif_pos h, h.2.2, Array.getElem?_eq_getElem hq]
    rcases Nat.lt_or_eq_of_le hi with hlt | rfl
    · simp only [successors, Array.getElem?_eq_getElem hlt] at hnext ⊢
      simp [hnext, Nat.ne_of_lt hlt]
    · simp only [successors, Array.getElem?_eq_none (Nat.le_refl _), List.nil_append] at hnext ⊢
      by_cases hterminal : a.states[q].isTerminal = true
      · simp [hterminal]
      · simp [hterminal, hnext]
  | case3 seen q i stack h ih =>
    obtain ⟨⟨hq, hi⟩, hrest⟩ := List.forall_mem_cons.1 hstack
    have hseen : seen.contains (q, i) = true := by simpa [hq, hi] using h
    rw [strictSearch, search, dif_neg h, if_pos hseen]
    exact ih hrest

theorem WellFormed.strictAcceptsFrom_eq (ha : a.WellFormed) (hq : q < a.states.size)
    (word : Sample) : a.strictAcceptsFrom q word = some (a.acceptsFrom q word) := by
  have hstart : ∀ m ∈ [((q, 0) : Mark)], Mark.InRange a word.toArray m := by
    simpa [Mark.InRange] using hq
  unfold strictAcceptsFrom acceptsFrom
  rw [ha.strictSearch_eq hstart]
  cases word.withinAlphabet a.alphabetSize <;> rfl

theorem WellFormed.strictGraph_eq (ha : a.WellFormed) : a.strictGraph = some a.graph := by
  have hnode : ∀ q < a.states.size,
      ∃ n, a.graph.nodes[q]? = some n ∧ n.id = q := by
    intro q hq
    simp [graph, hq]
  have hedges : ∀ e ∈ a.states.toList.zipIdx,
      e.1.edges.mapM (a.strictEdge e.2) = some (e.1.edges.map fun y ↦ ⟨e.2, y.2, y.1⟩) := by
    intro e he
    obtain ⟨s, q⟩ := e
    obtain ⟨hq, rfl⟩ : ∃ hq : q < a.states.size, a.states[q] = s := by
      simpa [Array.getElem?_eq_some_iff] using List.mem_zipIdx_iff_getElem?.1 he
    refine mapM_eq_some_map fun edge hedge ↦ ?_
    have hs := ha.states _ (Array.getElem_mem hq)
    obtain ⟨n, hn, hid⟩ := hnode q hq
    obtain ⟨m, hm, hid'⟩ := hnode edge.2 (hs.lt_of_mem_edges hedge)
    simp [strictEdge, hn, hm, hid, hid']
  rw [strictGraph, mapM_eq_some_map hedges]
  simp [graph, List.mapIdx_eq_zipIdx_map]

example : strictGraph ⟨#[⟨[(0, [1])], false⟩], 0, 1⟩ = none := rfl

end Automaton

namespace Walk

variable {w : Walk}

/-- A walk through a well-formed automaton that has only led to states that exist. -/
structure InRange (w : Walk) : Prop where
  wellFormed : w.automaton.WellFormed
  state_lt : ∀ e ∈ w.queue.toList, e.2 < w.automaton.states.size

theorem InRange.strictStep_eq (hw : w.InRange) : w.strictStep = some w.step := by
  unfold strictStep step
  rcases hpop : w.queue.pop? with _ | ⟨⟨word, q⟩, queue⟩
  · rfl
  · have hq := hw.state_lt (word, q) (by simp [Queue.pop?_eq_some hpop])
    simp [Array.getElem?_eq_getElem hq]

theorem lt_of_mem_grow {a : Automaton} {maxLength : Option Nat} {e f : Entry} (ha : a.WellFormed)
    (h : f ∈ grow a maxLength e) : f.2 < a.states.size := by
  unfold grow at h
  cases hs : a.states[e.2]? with
  | none => simp [hs] at h
  | some s =>
    rw [hs, Option.elim_some, children] at h
    split at h
    · obtain ⟨edge, hedge, rfl⟩ := List.mem_map.1 h
      exact (ha.states s (Array.mem_of_getElem? hs)).lt_of_mem_edges hedge
    · simp at h

theorem InRange.takes {w' : Walk} {e : Entry} (h : Takes w e w') (hw : w.InRange) : w'.InRange := by
  have hstates := h.forall_mem (fun _ _ _ hf ↦ lt_of_mem_grow hw.wellFormed hf) hw.state_lt
  exact ⟨h.automaton_eq ▸ hw.wellFormed, h.automaton_eq ▸ hstates⟩

theorem InRange.steps {out : List Sample} {w' : Walk} (hw : w.InRange)
    (h : Steps step w out w') : w'.InRange :=
  invariant_of_steps (fun _ _ _ htakes hw ↦ hw.takes htakes) h hw

theorem inRange_walkFrom {a : Automaton} {q : StateId} (ha : a.WellFormed)
    (hq : q < a.states.size) (maxLength : Option Nat) : (a.walkFrom q maxLength).InRange where
  wellFormed := ha
  state_lt := by simpa [Automaton.walkFrom] using hq

end Walk

namespace Automaton

variable {a : Automaton}

/-- All numbers of an automaton are those of states, its symbols belong to the alphabet, and nothing
that is done with it looks up a state that does not exist. -/
structure NeverOutOfRange (a : Automaton) : Prop where
  target_lt : ∀ s ∈ a.states, ∀ e ∈ s.transitions, ∀ t ∈ e.2, t < a.states.size
  symbol_lt : ∀ s ∈ a.states, ∀ e ∈ s.transitions, e.1.toNat < a.alphabetSize
  start_lt : a.states ≠ #[] → a.start < a.states.size
  search : ∀ q < a.states.size, ∀ word,
    a.strictAcceptsFrom q word = some (a.acceptsFrom q word)
  walk : ∀ q < a.states.size, ∀ maxLength out w,
    Steps Walk.step (a.walkFrom q maxLength) out w → w.strictStep = some w.step
  graph : a.strictGraph = some a.graph

theorem WellFormed.neverOutOfRange (ha : a.WellFormed) : a.NeverOutOfRange where
  target_lt s hs := (ha.states s hs).target_lt
  symbol_lt s hs := (ha.states s hs).symbol_lt
  start_lt hne := by
    rcases ha.start_lt with hlt | ⟨hsize, -⟩
    · exact hlt
    · exact absurd (Array.eq_empty_of_size_eq_zero hsize) hne
  search q hq word := ha.strictAcceptsFrom_eq hq word
  walk q hq maxLength out w h := ((Walk.inRange_walkFrom ha hq maxLength).steps h).strictStep_eq
  graph := ha.strictGraph_eq

/-- After any calls of the builder, those that are refused included, nothing is out of range; and
one more call that is refused changes nothing. -/
theorem neverOutOfRange_afterCalls (n : Nat) (calls : List Call) :
    ((empty n).afterCalls calls).NeverOutOfRange ∧
    ∀ c e a, ((empty n).afterCalls calls).call c = (.error e, a) →
      a = (empty n).afterCalls calls :=
  ⟨(built_afterCalls n calls).wellFormed.neverOutOfRange, fun _ _ _ h ↦ call_refused h⟩

end Automaton

end LangBench
