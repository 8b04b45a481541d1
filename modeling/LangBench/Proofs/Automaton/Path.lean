import LangBench.Proofs.Automaton.Built
import Mathlib.Algebra.BigOperators.Fin
import Mathlib.Data.Finite.Sigma
import Mathlib.SetTheory.Cardinal.Finite

/-!
Accepting paths, and the words that they spell.

A path chooses a target at each symbol by its place in the list of targets, so that a target that is
listed twice makes two paths.
-/

namespace LangBench.Automaton

variable {a : Automaton} {q : StateId} {x : Symbol} {w : Sample}

def targetsOf (a : Automaton) (q : StateId) (x : Symbol) : List StateId :=
  a.states[q]?.elim [] (·.targets x)

def edgesOf (a : Automaton) (q : StateId) : List (Symbol × StateId) :=
  a.states[q]?.elim [] State.edges

def isTerminalAt (a : Automaton) (q : StateId) : Bool := a.states[q]?.any State.isTerminal

theorem exists_entry_of_mem_targetsOf {t : StateId} (h : t ∈ a.targetsOf q x) :
    ∃ s ts, a.states[q]? = some s ∧ (x, ts) ∈ s.transitions ∧ t ∈ ts := by
  unfold targetsOf at h
  cases hs : a.states[q]? with
  | none => simp [hs] at h
  | some s =>
    rw [hs, Option.elim_some] at h
    obtain ⟨ts, hmem, ht⟩ := State.exists_entry_of_mem_targets h
    exact ⟨s, ts, rfl, hmem, ht⟩

theorem WellFormed.lt_of_mem_targetsOf {t : StateId} (ha : a.WellFormed)
    (h : t ∈ a.targetsOf q x) : t < a.states.size := by
  obtain ⟨s, ts, hs, hmem, ht⟩ := exists_entry_of_mem_targetsOf h
  exact (ha.states s (Array.mem_of_getElem? hs)).target_lt (x, ts) hmem t ht

/-- An accepting path from a state that spells a word. -/
inductive Path (a : Automaton) : StateId → Sample → Type
  | stop {q : StateId} (h : a.isTerminalAt q = true) : Path a q []
  | step {q : StateId} {x : Symbol} {w : Sample} (i : Fin (a.targetsOf q x).length)
      (rest : Path a ((a.targetsOf q x).get i) w) : Path a q (x :: w)

namespace Path

/-- A path that spells a longer word is a choice of a target and a path from there. -/
def consEquiv (a : Automaton) (q : StateId) (x : Symbol) (w : Sample) :
    a.Path q (x :: w) ≃ Σ i : Fin (a.targetsOf q x).length, a.Path ((a.targetsOf q x).get i) w where
  toFun | .step i rest => ⟨i, rest⟩
  invFun p := .step p.1 p.2
  left_inv p := by cases p; rfl
  right_inv _ := rfl

theorem nonempty_nil_iff : Nonempty (a.Path q []) ↔ a.isTerminalAt q = true :=
  ⟨fun ⟨.stop h⟩ ↦ h, fun h ↦ ⟨.stop h⟩⟩

theorem nonempty_cons_iff :
    Nonempty (a.Path q (x :: w)) ↔ ∃ t ∈ a.targetsOf q x, Nonempty (a.Path t w) := by
  constructor
  · intro h
    obtain ⟨path⟩ := h
    cases path with
    | step i rest => exact ⟨_, List.get_mem _ i, ⟨rest⟩⟩
  · intro hex
    obtain ⟨t, ht, ⟨rest⟩⟩ := hex
    obtain ⟨i, rfl⟩ := List.get_of_mem ht
    exact ⟨.step i rest⟩

instance subsingleton_nil : Subsingleton (a.Path q []) := ⟨fun | .stop _, .stop _ => rfl⟩

instance finite (a : Automaton) (q : StateId) (w : Sample) : Finite (a.Path q w) := by
  induction w generalizing q with
  | nil => infer_instance
  | cons x w ih => exact Finite.of_equiv _ (consEquiv a q x w).symm

theorem card_nil : Nat.card (a.Path q []) = if a.isTerminalAt q then 1 else 0 := by
  split
  · next h =>
    have : Nonempty (a.Path q []) := ⟨.stop h⟩
    exact Nat.card_eq_one_iff_unique.2 ⟨inferInstance, this⟩
  · next h =>
    have : IsEmpty (a.Path q []) := ⟨fun | .stop h' => h h'⟩
    exact Nat.card_of_isEmpty

theorem card_cons : Nat.card (a.Path q (x :: w)) =
    ((a.targetsOf q x).map fun t ↦ Nat.card (a.Path t w)).sum := by
  rw [Nat.card_congr (consEquiv a q x w), Nat.card_sigma]
  exact Fin.sum_univ_fun_getElem (a.targetsOf q x) fun t ↦ Nat.card (a.Path t w)

end Path

/-- The words of length `n` that lead from a state to a terminal one, one for each path, by the
edges of the first state. -/
def wordsFrom (a : Automaton) : Nat → StateId → List Sample
  | 0, q => if a.isTerminalAt q then [[]] else []
  | n + 1, q => (a.edgesOf q).flatMap fun (x, t) ↦ (a.wordsFrom n t).map (x :: ·)

theorem length_of_mem_wordsFrom {n : Nat} (h : w ∈ a.wordsFrom n q) : w.length = n := by
  induction n generalizing q w with
  | zero =>
    unfold wordsFrom at h
    split at h <;> simp_all
  | succ n ih =>
    simp only [wordsFrom, List.mem_flatMap, List.mem_map] at h
    obtain ⟨e, -, v, hv, rfl⟩ := h
    simp [ih hv]

theorem filter_edges (es : List (Symbol × List StateId))
    (h : es.Pairwise fun e f ↦ e.1 < f.1) (x : Symbol) :
    ((es.flatMap fun (y, ts) ↦ ts.map fun t ↦ (y, t)).filter (·.1 = x)) =
      ((es.lookup x).getD []).map fun t ↦ (x, t) := by
  induction es with
  | nil => rfl
  | cons e es ih =>
    obtain ⟨y, ts⟩ := e
    obtain ⟨he, hes⟩ := List.pairwise_cons.1 h
    rw [List.flatMap_cons, List.filter_append, ih hes, List.lookup_cons]
    by_cases hy : x = y
    · -- a symbol has one entry only: those after it are of greater symbols
      subst hy
      simp [State.lookup_eq_none_of_lt he, List.filter_map, Function.comp_def]
    · have hne : (x == y) = false := by simpa using hy
      simp [hne, List.filter_map, Function.comp_def, Ne.symm hy]

theorem WellFormed.filter_edgesOf (ha : a.WellFormed) (q : StateId) (x : Symbol) :
    (a.edgesOf q).filter (·.1 = x) = (a.targetsOf q x).map fun t ↦ (x, t) := by
  unfold edgesOf targetsOf
  cases hs : a.states[q]? with
  | none => rfl
  | some s =>
    exact filter_edges _ (ha.states s (Array.mem_of_getElem? hs)).ascending x

theorem sum_map_eq_sum_filter {α : Type} (l : List α) (p : α → Bool) (f : α → Nat)
    (h : ∀ y ∈ l, p y = false → f y = 0) : (l.map f).sum = ((l.filter p).map f).sum := by
  induction l with
  | nil => rfl
  | cons y l ih =>
    have hl := ih fun z hz ↦ h z (List.mem_cons_of_mem _ hz)
    cases hy : p y
    · simp [hy, hl, h y List.mem_cons_self hy]
    · simp [hy, hl]

theorem WellFormed.count_wordsFrom (ha : a.WellFormed) (w : Sample) (q : StateId) :
    (a.wordsFrom w.length q).count w = Nat.card (a.Path q w) := by
  induction w generalizing q with
  | nil =>
    rw [List.length_nil, wordsFrom, Path.card_nil]
    split <;> rfl
  | cons x w ih =>
    rw [Path.card_cons, List.length_cons, wordsFrom, List.count_flatMap,
      sum_map_eq_sum_filter _ (·.1 = x), ha.filter_edgesOf, List.map_map]
    · congr 1
      refine List.map_congr_left fun t _ ↦ ?_
      simp only [Function.comp_apply, ← ih t]
      exact List.count_map_of_injective _ _ (List.cons_injective) w
    · intro e _ he
      rw [Function.comp_apply, List.count_eq_zero]
      simp_all

end LangBench.Automaton
