import LangBench.Proofs.Automaton.Graph
import LangBench.Proofs.Text
import Mathlib

/-!
The DOT text of an automaton can be read in one way only, so it tells all that the automaton does.

Each statement of the text is a line. It begins with a number, and what comes after the number
tells a node from an edge.
-/

namespace LangBench

namespace Graph

variable {m n : Nat} {c d : Char} {r r' : List Char}

theorem toDigits_append_inj (hc : c.isDigit = false) (hd : d.isDigit = false)
    (h : Nat.toDigits 10 m ++ c :: r = Nat.toDigits 10 n ++ d :: r') :
    m = n ∧ c = d ∧ r = r' := by
  have hdigits (k : Nat) : ∀ e ∈ Nat.toDigits 10 k, e.isDigit = true := fun e he ↦
    Nat.isDigit_of_mem_toDigits (by decide) (by decide) he
  have htake := congrArg (List.takeWhile Char.isDigit) h
  rw [List.takeWhile_append_of_pos (hdigits m), List.takeWhile_append_of_pos (hdigits n),
    List.takeWhile_cons_of_neg (by simp [hc]), List.takeWhile_cons_of_neg (by simp [hd]),
    List.append_nil, List.append_nil] at htake
  have hmn : m = n := by simpa using congrArg (Nat.ofDigitChars 10 · 0) htake
  subst hmn
  exact ⟨rfl, List.cons.inj (List.append_cancel_left h)⟩

def line (subject label : List Char) : List Char :=
  [' ', ' ', ' ', ' '] ++ subject ++ [' ', '[', ' ', 'l', 'a', 'b', 'e', 'l', ' ', '=', ' ', '\"'] ++
    label ++ ['\"', ' ', ']']

def kinds (start terminal : Bool) : List Char :=
  match start, terminal with
  | true, true => " (start, terminal)".toList
  | true, false => " (start)".toList
  | false, true => " (terminal)".toList
  | false, false => []

def nodeLine (n : GraphNode) : List Char :=
  line (Nat.toDigits 10 n.id) (['s'] ++ Nat.toDigits 10 n.id ++ kinds n.start n.terminal)

def edgeLine (e : GraphEdge) : List Char :=
  line (Nat.toDigits 10 e.source ++ [' ', '-', '>', ' '] ++ Nat.toDigits 10 e.target)
    (Nat.toDigits 10 e.symbol.toNat)

theorem toList_statement (subject label : String) :
    (statement subject label).toList = line subject.toList label.toList ++ ['\n'] := by
  have hindent : "    ".toList = [' ', ' ', ' ', ' '] := by simp
  have hopening : " [ label = \"".toList =
      [' ', '[', ' ', 'l', 'a', 'b', 'e', 'l', ' ', '=', ' ', '\"'] := by simp
  have hclosing : "\" ]\n".toList = ['\"', ' ', ']'] ++ ['\n'] := by simp
  simp only [statement, String.toList_append, hindent, hopening, hclosing, line, List.append_assoc]

theorem toList_label (n : GraphNode) :
    n.label.toList = ['s'] ++ Nat.toDigits 10 n.id ++ kinds n.start n.terminal := by
  have hname : (StateId.render n.id).toList = ['s'] ++ Nat.toDigits 10 n.id := by
    simp [StateId.render, Nat.toString_eq_repr]
  rw [GraphNode.label, String.toList_append, hname]
  congr 1
  cases n.start <;> cases n.terminal <;> rfl

theorem kinds_inj {s t s' t' : Bool} (h : kinds s t = kinds s' t') : s = s' ∧ t = t' := by
  revert s t s' t'
  decide

theorem nodeLine_injective : Function.Injective nodeLine := by
  intro n n' h
  obtain ⟨id, start, terminal⟩ := n
  obtain ⟨id', start', terminal'⟩ := n'
  simp only [nodeLine, line, List.append_assoc, List.cons_append, List.nil_append, List.cons.injEq,
    true_and] at h
  obtain ⟨rfl, -, hlabel⟩ := toDigits_append_inj (by decide) (by decide) h
  simp only [List.cons.injEq, true_and] at hlabel
  obtain ⟨rfl, rfl⟩ := kinds_inj (List.append_cancel_right (List.append_cancel_left hlabel))
  rfl

theorem edgeLine_injective : Function.Injective edgeLine := by
  intro e e' h
  obtain ⟨source, target, symbol⟩ := e
  obtain ⟨source', target', symbol'⟩ := e'
  simp only [edgeLine, line, List.append_assoc, List.cons_append, List.nil_append, List.cons.injEq,
    true_and] at h
  obtain ⟨rfl, -, htarget⟩ := toDigits_append_inj (by decide) (by decide) h
  simp only [List.cons.injEq, true_and] at htarget
  obtain ⟨rfl, -, hlabel⟩ := toDigits_append_inj (by decide) (by decide) htarget
  simp only [List.cons.injEq, true_and] at hlabel
  obtain ⟨hsymbol, -⟩ := toDigits_append_inj (by decide) (by decide) hlabel
  rw [UInt32.toNat_inj.1 hsymbol]

theorem nodeLine_ne_edgeLine (n : GraphNode) (e : GraphEdge) : nodeLine n ≠ edgeLine e := by
  intro h
  simp only [nodeLine, edgeLine, line, List.append_assoc, List.cons_append, List.nil_append,
    List.cons.injEq, true_and] at h
  obtain ⟨-, -, hrest⟩ := toDigits_append_inj (by decide) (by decide) h
  exact absurd (List.cons.inj hrest).1 (by decide)

def lines (g : Graph) : List (List Char) := g.nodes.map nodeLine ++ g.edges.map edgeLine

/-- The lines of a graph are those of its nodes and then those of its edges, and no line is of both
sorts. -/
theorem lines_injective : Function.Injective lines := by
  intro g g' h
  obtain ⟨nodes, edges⟩ := g
  obtain ⟨nodes', edges'⟩ := g'
  have helim : Function.Injective (Sum.elim nodeLine edgeLine) :=
    nodeLine_injective.sumElim edgeLine_injective nodeLine_ne_edgeLine
  have hsum : nodes.map Sum.inl ++ edges.map Sum.inr =
      nodes'.map (Sum.inl (β := GraphEdge)) ++ edges'.map Sum.inr := by
    refine List.map_injective_iff.2 helim ?_
    simpa [lines, Function.comp_def] using h
  have hnodes : nodes = nodes' := by
    simpa [List.filterMap_map, Function.comp_def] using congrArg (List.filterMap Sum.getLeft?) hsum
  have hedges : edges = edges' := by
    simpa [List.filterMap_map, Function.comp_def] using congrArg (List.filterMap Sum.getRight?) hsum
  rw [hnodes, hedges]

/-- A line of a text: it has no line feed, and no carriage return at its end. -/
structure Single (l : List Char) : Prop where
  not_mem : '\n' ∉ l
  not_cr : ∀ k, l ≠ k ++ ['\r']

theorem lines_unlines {ls : List (List Char)} (h : ∀ l ∈ ls, Single l) :
    Text.lines (ls.flatMap (· ++ ['\n'])) = ls := by
  induction ls with
  | nil => rfl
  | cons l ls ih =>
    have hl := h l List.mem_cons_self
    rw [List.flatMap_cons, List.append_assoc, List.singleton_append,
      Text.lines_append_lf hl.not_mem hl.not_cr, ih fun l' hl' ↦ h l' (List.mem_cons_of_mem l hl')]

theorem single_line {subject label : List Char} (hsubject : '\n' ∉ subject)
    (hlabel : '\n' ∉ label) : Single (line subject label) where
  not_mem := by simp [line, hsubject, hlabel]
  not_cr k h := by
    have hlast : (line subject label).getLast? = some ']' := List.getLast?_append_of_ne_nil _ (by simp)
    rw [h, List.getLast?_concat] at hlast
    exact absurd hlast (by decide)

theorem lf_not_mem_toDigits (n : Nat) : '\n' ∉ Nat.toDigits 10 n := fun h ↦
  absurd (Nat.isDigit_of_mem_toDigits (by decide) (by decide) h) (by decide)

theorem lf_not_mem_kinds (start terminal : Bool) : '\n' ∉ kinds start terminal := by
  revert start terminal
  decide

theorem single_of_mem_lines {g : Graph} {l : List Char} (h : l ∈ g.lines) : Single l := by
  rcases List.mem_append.1 h with h | h
  · obtain ⟨n, -, rfl⟩ := List.mem_map.1 h
    apply single_line (lf_not_mem_toDigits n.id)
    simp [lf_not_mem_toDigits, lf_not_mem_kinds]
  · obtain ⟨e, -, rfl⟩ := List.mem_map.1 h
    refine single_line ?_ (lf_not_mem_toDigits e.symbol.toNat)
    simp [lf_not_mem_toDigits]

theorem lines_toDot (g : Graph) :
    Text.lines g.toDot.toList = "digraph \x7b".toList :: (g.lines ++ [['\x7d']]) := by
  have hsymbol (x : Symbol) : (toString x).toList = Nat.toDigits 10 x.toNat := by
    rw [← Nat.toList_repr]
    rfl
  have htext : g.toDot.toList =
      ("digraph \x7b".toList :: (g.lines ++ [['\x7d']])).flatMap (· ++ ['\n']) := by
    simp [toDot, toList_statement, toList_label, hsymbol, lines, nodeLine, edgeLine,
      List.flatMap_map, Nat.toString_eq_repr]
  rw [htext]
  apply lines_unlines
  intro l hl
  rcases List.mem_cons.1 hl with rfl | hl
  · exact ⟨by decide, fun k h ↦ by simpa using congrArg List.getLast? h⟩
  rcases List.mem_append.1 hl with hl | hl
  · exact single_of_mem_lines hl
  · obtain rfl := List.mem_singleton.1 hl
    exact ⟨by decide, fun k h ↦ by simpa using congrArg List.getLast? h⟩

/-- The text of a graph can be read in one way only. -/
theorem toDot_injective : Function.Injective toDot := by
  intro g g' h
  have hlines := congrArg (fun s : String ↦ Text.lines s.toList) h
  simp only [lines_toDot] at hlines
  exact lines_injective (List.append_cancel_right (List.cons.inj hlines).2)

end Graph

namespace Automaton

/-- An automaton accepts the words of its graph, and automata with one text accept and list the same
words from each of their states. -/
theorem Built.dot_determines {a : Automaton} (ha : a.Built) :
    (∀ w, a.accepts w = true ↔ a.graph.Accepts w) ∧
      ∀ b : Automaton, b.Built → a.toDot = b.toDot →
        a.states.size = b.states.size ∧ a.start? = b.start? ∧
        ∀ q, (∀ w, a.acceptsFrom q w = b.acceptsFrom q w) ∧
          ∀ maxLength budget n, take Walk.step budget n (a.walkFrom q maxLength) =
            take Walk.step budget n (b.walkFrom q maxLength) := by
  refine ⟨ha.wellFormed.accepts_iff_graph, fun b hb hdot ↦ ?_⟩
  have halike := alike_of_graph_eq (Graph.toDot_injective hdot)
  refine ⟨halike.size_eq, halike.start_eq, fun q ↦ ⟨?_, ?_⟩⟩
  · exact halike.acceptsFrom_eq ha.wellFormed hb.wellFormed q
  · exact halike.take_walkFrom_eq q

/-- One automaton has a larger alphabet and an entry without targets, the other has a flag on the
state that nothing leaves. -/
theorem dot_determines_unflagged :
    ∃ a b : Automaton, a.Built ∧ b.Built ∧ a ≠ b ∧ a.toDot = b.toDot ∧
      a.acceptsFrom 0 [0] = true ∧ b.acceptsFrom 0 [0] = true := by
  have hunflagged : Built ⟨#[⟨[], false⟩, ⟨[], false⟩], 0, 2⟩ := .addStates 2 false (.empty 2)
  have hedge : addTransition ⟨#[⟨[], false⟩, ⟨[], false⟩], 0, 2⟩ 0 0 [1] =
      .ok ⟨#[⟨[(0, [1])], false⟩, ⟨[], false⟩], 0, 2⟩ := rfl
  have hnone : addTransition ⟨#[⟨[(0, [1])], false⟩, ⟨[], false⟩], 0, 2⟩ 0 1 [] =
      .ok ⟨#[⟨[(0, [1]), (1, [])], false⟩, ⟨[], false⟩], 0, 2⟩ := rfl
  have hflagged : Built ⟨#[⟨[], false⟩, ⟨[], true⟩], 0, 1⟩ :=
    .addState true (.addState false (.empty 1))
  have hedge' : addTransition ⟨#[⟨[], false⟩, ⟨[], true⟩], 0, 1⟩ 0 0 [1] =
      .ok ⟨#[⟨[(0, [1])], false⟩, ⟨[], true⟩], 0, 1⟩ := rfl
  have ha := (hunflagged.addTransition hedge).addTransition hnone
  have hb := hflagged.addTransition hedge'
  have hdot := congrArg Graph.toDot (show graph ⟨#[⟨[(0, [1]), (1, [])], false⟩, ⟨[], false⟩], 0, 2⟩ =
    graph ⟨#[⟨[(0, [1])], false⟩, ⟨[], true⟩], 0, 1⟩ from rfl)
  have hwords := (((Built.dot_determines ha).2 _ hb hdot).2.2 0).1 [0]
  refine ⟨_, _, ha, hb, by decide, hdot, ?_, ?_⟩
  · cbv
  · rw [← hwords]
    cbv

end Automaton

end LangBench
