import LangBench.Proofs.Automaton.Soundness
import Mathlib.Data.List.FinRange
import Mathlib.Data.List.Shortlex

/-!
The order in which a walk hands out words: that of their paths, shorter ones first, and those of one
length by the symbols and the places of the targets that they choose one after the other.
-/

namespace LangBench.Automaton

variable {a : Automaton} {q : StateId} {x : Symbol} {w : Sample} {n : Nat}

/-- What a path chooses at each step: the symbol, and the place of the target among its targets. -/
def Path.choices {q : StateId} {w : Sample} : a.Path q w → List (Symbol × Nat)
  | stop _ => []
  | @step _ _ x _ i rest => (x, i.val) :: rest.choices

theorem Path.length_choices (p : a.Path q w) : p.choices.length = w.length := by
  induction p with
  | stop => rfl
  | step i _ ih => exact congrArg (· + 1) ih

/-- An accepting path comes before another if it is shorter, or as long and at the first difference
takes a smaller symbol, or the same symbol to an earlier target. -/
def Path.Before {w w' : Sample} (p : a.Path q w) (p' : a.Path q w') : Prop :=
  List.Shortlex (Prod.Lex (· < ·) (· < ·)) p.choices p'.choices

def symbolsOf (a : Automaton) (q : StateId) : List Symbol :=
  a.states[q]?.elim [] fun s ↦ s.transitions.map Prod.fst

/-- The accepting paths of one length, each with the word that it spells. -/
def pathsFrom (a : Automaton) : Nat → (q : StateId) → List (Σ w, a.Path q w)
  | 0, q => if h : a.isTerminalAt q = true then [⟨[], .stop h⟩] else []
  | n + 1, q => (a.symbolsOf q).flatMap fun x ↦
      (List.finRange (a.targetsOf q x).length).flatMap fun i ↦
        (a.pathsFrom n ((a.targetsOf q x).get i)).map fun p ↦ ⟨x :: p.1, .step i p.2⟩

def pathsUpTo (a : Automaton) (n : Nat) (q : StateId) : List (Σ w, a.Path q w) :=
  (List.range (n + 1)).flatMap (a.pathsFrom · q)

theorem length_of_mem_pathsFrom {p : Σ w, a.Path q w} (h : p ∈ a.pathsFrom n q) :
    p.1.length = n := by
  induction n generalizing q with
  | zero =>
    unfold pathsFrom at h
    split at h
    · rw [List.mem_singleton.1 h]
      rfl
    · simp at h
  | succ n ih =>
    obtain ⟨x, -, h⟩ := List.mem_flatMap.1 h
    obtain ⟨i, -, h⟩ := List.mem_flatMap.1 h
    obtain ⟨p, hp, rfl⟩ := List.mem_map.1 h
    exact congrArg (· + 1) (ih hp)

theorem mem_symbolsOf_of_mem_targetsOf {t : StateId} (h : t ∈ a.targetsOf q x) :
    x ∈ a.symbolsOf q := by
  obtain ⟨s, ts, hs, hmem, -⟩ := exists_entry_of_mem_targetsOf h
  rw [symbolsOf, hs, Option.elim_some]
  exact List.mem_map_of_mem (f := Prod.fst) hmem

theorem Path.mem_pathsFrom (p : a.Path q w) : ⟨w, p⟩ ∈ a.pathsFrom w.length q := by
  induction p with
  | @stop q h =>
    rw [List.length_nil, pathsFrom, dif_pos h]
    exact List.mem_singleton_self _
  | step i rest ih =>
    have hx := mem_symbolsOf_of_mem_targetsOf (List.get_mem _ i)
    exact List.mem_flatMap.2 ⟨_, hx, List.mem_flatMap.2 ⟨i, List.mem_finRange i,
      List.mem_map.2 ⟨⟨_, rest⟩, ih, rfl⟩⟩⟩

theorem mem_pathsUpTo {p : Σ w, a.Path q w} : p ∈ a.pathsUpTo n q ↔ p.1.length ≤ n := by
  unfold pathsUpTo
  rw [List.mem_flatMap]
  constructor
  · intro hex
    obtain ⟨k, hk, hp⟩ := hex
    rw [length_of_mem_pathsFrom hp]
    exact Nat.le_of_lt_succ (List.mem_range.1 hk)
  · intro hle
    exact ⟨p.1.length, List.mem_range.2 (Nat.lt_succ_of_le hle), p.2.mem_pathsFrom⟩

theorem WellFormed.ascending_symbolsOf (ha : a.WellFormed) (q : StateId) :
    (a.symbolsOf q).Pairwise (· < ·) := by
  unfold symbolsOf
  cases hs : a.states[q]? with
  | none => exact .nil
  | some s => exact List.pairwise_map.2 (ha.states s (Array.mem_of_getElem? hs)).ascending

theorem WellFormed.pairwise_pathsFrom (ha : a.WellFormed) (n : Nat) (q : StateId) :
    (a.pathsFrom n q).Pairwise fun p p' ↦
      List.Lex (Prod.Lex (· < ·) (· < ·)) p.2.choices p'.2.choices := by
  induction n generalizing q with
  | zero =>
    unfold pathsFrom
    split
    · exact List.pairwise_singleton _ _
    · exact .nil
  | succ n ih =>
    rw [pathsFrom, List.pairwise_flatMap]
    constructor
    · intro x _
      rw [List.pairwise_flatMap]
      constructor
      · intro i _
        rw [List.pairwise_map]
        exact (ih _).imp fun h ↦ .cons h
      · apply (List.pairwise_lt_finRange _).imp
        intro i j hij p hp p' hp'
        obtain ⟨rest, -, rfl⟩ := List.mem_map.1 hp
        obtain ⟨rest', -, rfl⟩ := List.mem_map.1 hp'
        exact .rel (.right x hij)
    · apply (ha.ascending_symbolsOf q).imp
      intro x y hxy p hp p' hp'
      obtain ⟨i, -, hp⟩ := List.mem_flatMap.1 hp
      obtain ⟨j, -, hp'⟩ := List.mem_flatMap.1 hp'
      obtain ⟨rest, -, rfl⟩ := List.mem_map.1 hp
      obtain ⟨rest', -, rfl⟩ := List.mem_map.1 hp'
      exact .rel (.left _ _ hxy)

theorem WellFormed.pairwise_pathsUpTo (ha : a.WellFormed) (n : Nat) (q : StateId) :
    (a.pathsUpTo n q).Pairwise fun p p' ↦ p.2.Before p'.2 := by
  have hlength {k : Nat} {p : Σ w, a.Path q w} (hp : p ∈ a.pathsFrom k q) :
      p.2.choices.length = k := p.2.length_choices.trans (length_of_mem_pathsFrom hp)
  rw [pathsUpTo, List.pairwise_flatMap]
  constructor
  · intro k _
    apply (ha.pairwise_pathsFrom k q).imp_of_mem
    intro p p' hp hp' h
    exact .of_lex ((hlength hp).trans (hlength hp').symm) h
  · apply List.pairwise_lt_range.imp
    intro k k' hlt p hp p' hp'
    apply List.Shortlex.of_length_lt
    rwa [hlength hp, hlength hp']

theorem lookup_of_ascending {es : List (Symbol × List StateId)}
    (h : es.Pairwise fun e f ↦ e.1 < f.1) {e : Symbol × List StateId} (he : e ∈ es) :
    es.lookup e.1 = some e.2 := by
  induction es with
  | nil => simp at he
  | cons f es ih =>
    obtain ⟨hf, hes⟩ := List.pairwise_cons.1 h
    rcases List.mem_cons.1 he with rfl | he
    · exact List.lookup_cons_self
    · have hne : (e.1 == f.1) = false := by simpa using (UInt32.ne_of_lt (hf e he)).symm
      rw [List.lookup_cons, hne]
      exact ih hes he

theorem WellFormed.edgesOf_eq (ha : a.WellFormed) (q : StateId) :
    a.edgesOf q = (a.symbolsOf q).flatMap fun x ↦ (a.targetsOf q x).map fun t ↦ (x, t) := by
  unfold edgesOf symbolsOf targetsOf
  cases hs : a.states[q]? with
  | none => rfl
  | some s =>
    have hascending := (ha.states s (Array.mem_of_getElem? hs)).ascending
    rw [Option.elim_some, Option.elim_some, State.edges, List.flatMap_map]
    refine List.flatMap_congr fun e he ↦ ?_
    rw [Option.elim_some, State.targets, lookup_of_ascending hascending he, Option.getD_some]

theorem WellFormed.map_pathsFrom (ha : a.WellFormed) (n : Nat) (q : StateId) :
    (a.pathsFrom n q).map Sigma.fst = a.wordsFrom n q := by
  induction n generalizing q with
  | zero =>
    unfold pathsFrom wordsFrom
    split <;> rfl
  | succ n ih =>
    have hchoice (x : Symbol) (i : Fin (a.targetsOf q x).length) :
        ((a.pathsFrom n ((a.targetsOf q x).get i)).map
          fun p ↦ (⟨x :: p.1, .step i p.2⟩ : Σ w, a.Path q w)).map Sigma.fst =
          (a.wordsFrom n ((a.targetsOf q x).get i)).map (x :: ·) := by
      rw [← ih, List.map_map, List.map_map]
      rfl
    rw [pathsFrom, wordsFrom, ha.edgesOf_eq, List.map_flatMap, List.flatMap_assoc]
    refine List.flatMap_congr fun x _ ↦ ?_
    rw [List.map_flatMap, List.flatMap_map]
    conv_rhs => rw [← List.map_get_finRange (a.targetsOf q x), List.flatMap_map]
    exact List.flatMap_congr fun i _ ↦ hchoice x i

theorem WellFormed.map_pathsUpTo (ha : a.WellFormed) (n : Nat) (q : StateId) :
    (a.pathsUpTo n q).map Sigma.fst = (List.range (n + 1)).flatMap (a.wordsFrom · q) := by
  rw [pathsUpTo, List.map_flatMap]
  exact List.flatMap_congr fun k _ ↦ ha.map_pathsFrom k q

/-- From any state of an automaton that has been built, a walk hands out the words of its accepting
paths, one for each path. With a bound it lists those of the paths up to the bound, in their order.
Without one it begins with the same, and then goes on with longer words only; and whatever it has
handed out is a beginning of such a list. -/
theorem Built.walk_in_path_order (h : a.Built) (q : StateId) :
    (∀ n, (∀ p, p ∈ a.pathsUpTo n q ↔ p.1.length ≤ n) ∧ (a.pathsUpTo n q).Nodup ∧
      (a.pathsUpTo n q).Pairwise (fun p p' ↦ p.2.Before p'.2) ∧
      Lists Walk.step (a.walkFrom q (some n)) ((a.pathsUpTo n q).map Sigma.fst) ∧
      ∃ w, Steps Walk.step (a.walkFrom q none) ((a.pathsUpTo n q).map Sigma.fst) w ∧
        ∀ out w', Steps Walk.step w out w' → ∀ x ∈ out, n < x.length) ∧
    ∀ out w, Steps Walk.step (a.walkFrom q none) out w →
      ∃ n, out <+: (a.pathsUpTo n q).map Sigma.fst := by
  have ha := h.wellFormed
  constructor
  · intro n
    refine ⟨fun p ↦ mem_pathsUpTo, ?_, ha.pairwise_pathsUpTo n q, ?_, ?_⟩
    · apply (ha.pairwise_pathsUpTo n q).imp
      rintro p _ hbefore rfl
      exact Std.Irrefl.irrefl (r := List.Shortlex _) _ hbefore
    · rw [ha.map_pathsUpTo]
      exact Walk.lists_walkFrom a q n
    · obtain ⟨w, hqueue, hsteps⟩ := Walk.exists_steps_walkFrom a q (n + 1)
      rw [← ha.map_pathsUpTo] at hsteps
      exact ⟨w, hsteps, fun out w' hrest ↦
        Walk.le_length_of_steps hrest fun e he ↦ (hqueue e he).ge⟩
  · intro out w hrun
    obtain ⟨n, hprefix⟩ := Walk.prefix_of_steps hrun
    refine ⟨n, hprefix.trans ?_⟩
    rw [ha.map_pathsUpTo, List.range_succ, List.flatMap_append]
    exact List.prefix_append _ _

/-- A smaller symbol comes first though it is added last, and a target that is given twice makes two
paths that hand out one word. -/
theorem walk_in_path_order_repeated :
    ∃ a : Automaton, a.Built ∧ Lists Walk.step (a.walkFrom 0 (some 2)) [[0], [0], [1, 0], [1, 0]] ∧
      ∃ w, Steps Walk.step (a.walkFrom 0 none) [[0], [0], [1, 0], [1, 0]] w := by
  have hstates : Built ⟨#[⟨[], false⟩, ⟨[], false⟩], 0, 2⟩ := .addStates 2 false (.empty 2)
  have hloop : addTransition ⟨#[⟨[], false⟩, ⟨[], false⟩], 0, 2⟩ 0 1 [0] =
      .ok ⟨#[⟨[(1, [0])], false⟩, ⟨[], false⟩], 0, 2⟩ := rfl
  have htwice : addTransition ⟨#[⟨[(1, [0])], false⟩, ⟨[], false⟩], 0, 2⟩ 0 0 [1, 1] =
      .ok ⟨#[⟨[(0, [1, 1]), (1, [0])], false⟩, ⟨[], false⟩], 0, 2⟩ := rfl
  have hbuilt := (hstates.addTransition hloop).addTransition htwice
  have hwords : (pathsUpTo ⟨#[⟨[(0, [1, 1]), (1, [0])], false⟩, ⟨[], false⟩], 0, 2⟩ 2 0).map
      Sigma.fst = [[0], [0], [1, 0], [1, 0]] := by decide
  obtain ⟨-, -, -, hlists, w, hsteps, -⟩ := (Built.walk_in_path_order hbuilt 0).1 2
  rw [hwords] at hlists hsteps
  exact ⟨_, hbuilt, hlists, w, hsteps⟩

end LangBench.Automaton
