import LangBench.Automaton.Graph
import LangBench.Proofs.Automaton.Layers

/-!
The graph of an automaton tells all that the automaton does. Its words are those that the edges
spell from the start to a terminal node, and its walks follow the edges in their order.
-/

namespace LangBench

/-- The edges spell a word on a way from one node to another. -/
inductive Graph.Spells (g : Graph) : StateId → Sample → StateId → Prop
  | nil (q : StateId) : Spells g q [] q
  | cons {q t r : StateId} {x : Symbol} {w : Sample} :
      ⟨q, t, x⟩ ∈ g.edges → Spells g t w r → Spells g q (x :: w) r

/-- The edges spell a word on a way from a node labelled start to a node labelled terminal. -/
def Graph.Accepts (g : Graph) (w : Sample) : Prop :=
  ∃ m ∈ g.nodes, ∃ n ∈ g.nodes, m.start = true ∧ n.terminal = true ∧ g.Spells m.id w n.id

namespace Automaton

variable {a b : Automaton} {q t : StateId} {x : Symbol} {w : Sample}

theorem getElem?_nodes (a : Automaton) (q : StateId) :
    a.graph.nodes[q]? = a.states[q]?.map fun s ↦ ⟨q, q = a.start, s.isTerminal⟩ := by
  simp [graph]

theorem mem_nodes {n : GraphNode} : n ∈ a.graph.nodes ↔
    n.id < a.states.size ∧ n.start = decide (n.id = a.start) ∧
      n.terminal = a.isTerminalAt n.id := by
  obtain ⟨q, start, terminal⟩ := n
  rw [List.mem_iff_getElem?]
  simp only [getElem?_nodes, Option.map_eq_some_iff, GraphNode.mk.injEq, isTerminalAt]
  constructor
  · intro hex
    obtain ⟨_, s, hs, rfl, rfl, rfl⟩ := hex
    obtain ⟨hq, rfl⟩ := Array.getElem?_eq_some_iff.1 hs
    exact ⟨hq, rfl, by simp [hq]⟩
  · intro h
    obtain ⟨hq, hstart, hterminal⟩ := h
    exact ⟨q, a.states[q], Array.getElem?_eq_getElem hq, rfl, hstart.symm, by simp [hterminal, hq]⟩

theorem filter_source (states : List State) (k q : Nat) :
    ((states.zipIdx k).map fun (s, i) ↦
      s.edges.map fun (x, t) ↦ (⟨i, t, x⟩ : GraphEdge)).flatten.filter (·.source = q) =
      if k ≤ q then (states[q - k]?.elim [] State.edges).map fun (x, t) ↦ ⟨q, t, x⟩ else [] := by
  induction states generalizing k with
  | nil => simp
  | cons s states ih =>
    rw [List.zipIdx_cons, List.map_cons, List.flatten_cons, List.filter_append, ih]
    rcases Nat.lt_trichotomy k q with hlt | rfl | hlt
    · have hsub : q - k = (q - (k + 1)) + 1 := by omega
      simp [List.filter_map, Function.comp_def, Nat.ne_of_lt hlt, hlt, Nat.le_of_lt hlt, hsub]
    · simp [List.filter_map, Function.comp_def]
    · simp [List.filter_map, Function.comp_def, Nat.ne_of_gt hlt, Nat.not_le.2 hlt,
        Nat.not_lt.2 (Nat.le_of_lt hlt)]

theorem edgesOf_eq_filter (a : Automaton) (q : StateId) :
    a.edgesOf q = (a.graph.edges.filter (·.source = q)).map fun e ↦ (e.symbol, e.target) := by
  have hedges := filter_source a.states.toList 0 q
  rw [if_pos (Nat.zero_le q), Nat.sub_zero, Array.getElem?_toList] at hedges
  have hgraph : a.graph.edges = (a.states.toList.zipIdx.map fun (s, i) ↦
      s.edges.map fun (x, t) ↦ (⟨i, t, x⟩ : GraphEdge)).flatten := by
    simp [graph, List.mapIdx_eq_zipIdx_map]
  rw [hgraph, hedges, List.map_map]
  exact (List.map_id _).symm

theorem mem_edges_iff : ⟨q, t, x⟩ ∈ a.graph.edges ↔ (x, t) ∈ a.edgesOf q := by
  rw [edgesOf_eq_filter, List.mem_map]
  constructor
  · exact fun h ↦ ⟨_, List.mem_filter.2 ⟨h, decide_eq_true rfl⟩, rfl⟩
  · intro hex
    obtain ⟨e, he, heq⟩ := hex
    obtain ⟨hmem, hsource⟩ := List.mem_filter.1 he
    obtain ⟨rfl, rfl⟩ := Prod.mk.inj heq
    obtain rfl := of_decide_eq_true hsource
    exact hmem

theorem WellFormed.mem_targetsOf_iff (ha : a.WellFormed) :
    t ∈ a.targetsOf q x ↔ ⟨q, t, x⟩ ∈ a.graph.edges := by
  have hmem : (x, t) ∈ (a.edgesOf q).filter (·.1 = x) ↔ (x, t) ∈ a.edgesOf q := by
    simp [List.mem_filter]
  rw [mem_edges_iff, ← hmem, ha.filter_edgesOf]
  simp

theorem WellFormed.nonempty_path_iff (ha : a.WellFormed) (hq : q < a.states.size) :
    Nonempty (a.Path q w) ↔ ∃ n ∈ a.graph.nodes, n.terminal = true ∧ a.graph.Spells q w n.id := by
  induction w generalizing q with
  | nil =>
    rw [Path.nonempty_nil_iff]
    constructor
    · exact fun h ↦ ⟨⟨q, decide (q = a.start), _⟩, mem_nodes.2 ⟨hq, rfl, rfl⟩, h, .nil q⟩
    · intro hex
      obtain ⟨n, hn, hterminal, hspells⟩ := hex
      obtain ⟨-, -, heq⟩ := mem_nodes.1 hn
      cases hspells with
      | nil => exact heq.symm.trans hterminal
  | cons x w ih =>
    rw [Path.nonempty_cons_iff]
    constructor
    · intro hex
      obtain ⟨t, ht, hpath⟩ := hex
      obtain ⟨n, hn, hterminal, hspells⟩ := (ih (ha.lt_of_mem_targetsOf ht)).1 hpath
      exact ⟨n, hn, hterminal, .cons (ha.mem_targetsOf_iff.1 ht) hspells⟩
    · intro hex
      obtain ⟨n, hn, hterminal, hspells⟩ := hex
      cases hspells with
      | cons hedge hspells =>
        have ht := ha.mem_targetsOf_iff.2 hedge
        exact ⟨_, ht, (ih (ha.lt_of_mem_targetsOf ht)).2 ⟨n, hn, hterminal, hspells⟩⟩

theorem WellFormed.accepts_iff_graph (ha : a.WellFormed) (w : Sample) :
    a.accepts w = true ↔ a.graph.Accepts w := by
  unfold accepts start?
  by_cases hstart : a.start < a.states.size
  · rw [if_pos hstart]
    simp only
    rw [ha.acceptsFrom_iff, ha.nonempty_path_iff hstart]
    constructor
    · intro hex
      obtain ⟨n, hn, hterminal, hspells⟩ := hex
      exact ⟨⟨a.start, true, a.isTerminalAt a.start⟩, mem_nodes.2 ⟨hstart, by simp, rfl⟩, n, hn,
        rfl, hterminal, hspells⟩
    · intro hex
      obtain ⟨m, hm, n, hn, hlabel, hterminal, hspells⟩ := hex
      obtain ⟨-, heq, -⟩ := mem_nodes.1 hm
      obtain heq : m.id = a.start := of_decide_eq_true (heq.symm.trans hlabel)
      exact ⟨n, hn, hterminal, heq ▸ hspells⟩
  · rw [if_neg hstart]
    refine iff_of_false Bool.false_ne_true fun hex ↦ ?_
    obtain ⟨m, hm, -, -, hlabel, -⟩ := hex
    obtain ⟨hlt, heq, -⟩ := mem_nodes.1 hm
    obtain heq : m.id = a.start := of_decide_eq_true (heq.symm.trans hlabel)
    exact hstart (heq ▸ hlt)

/-- Two automata have the same states, as far as their kinds and the edges between them go. -/
structure Alike (a b : Automaton) : Prop where
  size_eq : a.states.size = b.states.size
  start_eq : a.start? = b.start?
  terminal_eq : ∀ q, a.isTerminalAt q = b.isTerminalAt q
  edges_eq : ∀ q, a.edgesOf q = b.edgesOf q

theorem alike_of_graph_eq (h : a.graph = b.graph) : a.Alike b := by
  have hmem (n : GraphNode) : n ∈ a.graph.nodes ↔ n ∈ b.graph.nodes := by rw [h]
  have hsize : a.states.size = b.states.size := by
    simpa [graph] using congrArg (fun g : Graph ↦ g.nodes.length) h
  have hnode {q : StateId} (hq : q < a.states.size) :
      decide (q = a.start) = decide (q = b.start) ∧ a.isTerminalAt q = b.isTerminalAt q :=
    (mem_nodes.1 ((hmem ⟨q, decide (q = a.start), _⟩).1 (mem_nodes.2 ⟨hq, rfl, rfl⟩))).2
  refine ⟨hsize, ?_, fun q ↦ ?_, fun q ↦ ?_⟩
  · unfold start?
    by_cases ha : a.start < a.states.size
    · have heq : a.start = b.start := by simpa using (hnode ha).1
      rw [if_pos ha, ← heq, ← hsize, if_pos ha]
    · have hb : ¬ b.start < b.states.size := fun hb ↦ by
        have heq : b.start = a.start := by simpa using (hnode (hsize.symm ▸ hb : b.start < _)).1
        exact ha (heq ▸ hsize ▸ hb)
      rw [if_neg ha, if_neg hb]
  · by_cases hq : q < a.states.size
    · exact (hnode hq).2
    · have hb : ¬ q < b.states.size := hsize ▸ hq
      simp [isTerminalAt, hq, hb]
  · rw [edgesOf_eq_filter, edgesOf_eq_filter, h]

namespace Alike

theorem wordsFrom_eq (h : a.Alike b) (n : Nat) (q : StateId) :
    a.wordsFrom n q = b.wordsFrom n q := by
  induction n generalizing q with
  | zero => rw [wordsFrom, wordsFrom, h.terminal_eq]
  | succ n ih => simp only [wordsFrom, h.edges_eq, ih]

/-- Automata that are alike accept the same words from each state, also if their alphabets
differ. -/
theorem acceptsFrom_eq (h : a.Alike b) (ha : a.WellFormed) (hb : b.WellFormed) (q : StateId)
    (w : Sample) : a.acceptsFrom q w = b.acceptsFrom q w := by
  rw [Bool.eq_iff_iff, ← ha.mem_wordsFrom_iff, ← hb.mem_wordsFrom_iff, h.wordsFrom_eq]

/-- Two walks through automata that have come to the same words and the same states. -/
inductive Walks (a b : Automaton) : Walk → Walk → Prop
  | mk (maxLength : Option Nat) (queue : Queue (List Symbol × StateId)) :
      Walks a b ⟨a, maxLength, queue⟩ ⟨b, maxLength, queue⟩

theorem lockstep (h : a.Alike b) {v w : Walk} (hvw : Walks a b v w) :
    Step.Lockstep id (Walks a b) v.step w.step := by
  obtain ⟨maxLength, queue⟩ := hvw
  unfold Walk.step
  rcases queue.pop? with _ | ⟨⟨word, q⟩, queue⟩
  · exact .done
  · have hterminal := h.terminal_eq q
    have hedges := h.edges_eq q
    by_cases hq : q < a.states.size
    · have hq' : q < b.states.size := h.size_eq ▸ hq
      simp only [isTerminalAt, edgesOf, Array.getElem?_eq_getElem hq, Array.getElem?_eq_getElem hq',
        Option.any_some, Option.elim_some] at hterminal hedges
      simp only [Array.getElem?_eq_getElem hq, Array.getElem?_eq_getElem hq', Walk.children,
        hterminal, hedges]
      split
      · exact .emit _ ⟨_, _⟩
      · exact .skip ⟨_, _⟩
    · have hq' : ¬ q < b.states.size := h.size_eq ▸ hq
      simp only [Array.getElem?_eq_none (Nat.le_of_not_lt hq),
        Array.getElem?_eq_none (Nat.le_of_not_lt hq')]
      exact .skip ⟨_, _⟩

theorem take_walkFrom_eq (h : a.Alike b) (q : StateId) (maxLength : Option Nat) (budget n : Nat) :
    take Walk.step budget n (a.walkFrom q maxLength) =
      take Walk.step budget n (b.walkFrom q maxLength) := by
  have hstart : Walks a b (a.walkFrom q maxLength) (b.walkFrom q maxLength) := ⟨_, _⟩
  rw [take_lockstep (fun _ _ ↦ h.lockstep) hstart, List.map_id]

end Alike

end Automaton

end LangBench
