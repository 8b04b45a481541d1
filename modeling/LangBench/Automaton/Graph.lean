import LangBench.Automaton.Basic

/-!
An automaton as a labelled graph, and its text in the DOT format.

Nodes are the states in order. Edges go state by state, by ascending symbols, and through the
targets of a symbol in their order.
-/

namespace LangBench

/-- A node: the number of its state, and what kind of state it is. -/
structure GraphNode where
  id : StateId
  start : Bool
  terminal : Bool
  deriving DecidableEq

/-- An edge between two states, labelled with a symbol. -/
structure GraphEdge where
  source : StateId
  target : StateId
  symbol : Symbol
  deriving DecidableEq

/-- The graph of an automaton. -/
structure Graph where
  nodes : List GraphNode
  edges : List GraphEdge
  deriving DecidableEq

def StateId.render (q : StateId) : String := "s" ++ toString q

/-- The name of the state, and its kinds in parentheses if it has any. -/
def GraphNode.label (n : GraphNode) : String :=
  StateId.render n.id ++
    match n.start, n.terminal with
    | true, true => " (start, terminal)"
    | true, false => " (start)"
    | false, true => " (terminal)"
    | false, false => ""

namespace Graph

def statement (subject label : String) : String :=
  "    " ++ subject ++ " [ label = \"" ++ label ++ "\" ]\n"

/-- The DOT text: one statement for each node, then one for each edge. -/
def toDot (g : Graph) : String :=
  let nodes := g.nodes.map fun n ↦ statement (toString n.id) n.label
  let edges := g.edges.map fun e ↦
    statement (toString e.source ++ " -> " ++ toString e.target) (toString e.symbol)
  "digraph \x7b\n" ++ String.join (nodes ++ edges) ++ "\x7d\n"

end Graph

namespace Automaton

def graph (a : Automaton) : Graph where
  nodes := a.states.toList.mapIdx fun q s ↦ ⟨q, q = a.start, s.isTerminal⟩
  edges := (a.states.toList.mapIdx fun q s ↦ s.edges.map fun (x, t) ↦ ⟨q, t, x⟩).flatten

def toDot (a : Automaton) : String := a.graph.toDot

end Automaton

end LangBench
