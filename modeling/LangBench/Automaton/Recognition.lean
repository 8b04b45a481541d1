import LangBench.Automaton.Basic
import Std.Data.HashSet

/-!
Recognising the words of an automaton by a search with backtracking.

The search keeps a stack of marks still to be tried, each a state and a place in the word. A mark
that has been tried is not tried again, since it cannot succeed the second time.
-/

namespace LangBench.Automaton

open Std (HashSet)

/-- A state and the number of symbols that have been read. -/
abbrev Mark := StateId × Nat

/-- Every mark that a search with a word of `n` symbols can set. -/
def marks (a : Automaton) (n : Nat) : List Mark :=
  (List.range a.states.size).flatMap fun q ↦ (List.range (n + 1)).map fun i ↦ (q, i)

def unmarked (a : Automaton) (n : Nat) (seen : HashSet Mark) : Nat :=
  (a.marks n).countP fun m ↦ !seen.contains m

theorem mem_marks {a : Automaton} {n : Nat} {m : Mark} :
    m ∈ a.marks n ↔ m.1 < a.states.size ∧ m.2 ≤ n := by
  obtain ⟨q, i⟩ := m
  simp only [marks, List.mem_flatMap, List.mem_range, List.mem_map, Prod.mk.injEq,
    Nat.lt_succ_iff]
  constructor
  · rintro ⟨_, hq, _, hi, rfl, rfl⟩
    exact ⟨hq, hi⟩
  · rintro ⟨hq, hi⟩
    exact ⟨_, hq, _, hi, rfl, rfl⟩

theorem unmarked_insert_lt {a : Automaton} {n : Nat} {seen : HashSet Mark} {m : Mark}
    (hm : m ∈ a.marks n) (hs : seen.contains m = false) :
    a.unmarked n (seen.insert m) < a.unmarked n seen := by
  have hsub : ∀ l : List Mark, l.countP (fun x ↦ !(seen.insert m).contains x) ≤
      l.countP (fun x ↦ !seen.contains x) := fun l ↦ by
    refine List.countP_mono_left fun x _ hx ↦ ?_
    simp_all
  obtain ⟨l₁, l₂, hl⟩ := List.append_of_mem hm
  have h₁ := hsub l₁
  have h₂ := hsub l₂
  have hself : (seen.insert m).contains m = true := by simp
  simp only [unmarked, hl, List.countP_append, List.countP_cons, hs, hself, Bool.not_true,
    Bool.not_false, Bool.false_eq_true, if_true, if_false]
  omega

/-- The marks that the symbol at a place leads to, the first target first. -/
def successors (s : State) (word : Array Symbol) (i : Nat) : List Mark :=
  match word[i]? with
  | some x => (s.targets x).map fun t ↦ (t, i + 1)
  | none => []

/-- Whether some mark on the stack leads to the end of the word in a terminal state. -/
def search (a : Automaton) (word : Array Symbol) (seen : HashSet Mark) : List Mark → Bool
  | [] => false
  | (q, i) :: stack =>
    if h : q < a.states.size ∧ i ≤ word.size ∧ seen.contains (q, i) = false then
      have hq := h.1
      have := unmarked_insert_lt (mem_marks.2 ⟨h.1, h.2.1⟩) h.2.2
      (i = word.size && a.states[q].isTerminal) ||
        a.search word (seen.insert (q, i)) (successors a.states[q] word i ++ stack)
    else a.search word seen stack
termination_by stack => (a.unmarked word.size seen, stack.length)

/-- Whether a word leads from a state to a terminal one. A symbol outside the alphabet has no
transitions, so the word is refused at once. -/
def acceptsFrom (a : Automaton) (q : StateId) (word : Sample) : Bool :=
  word.withinAlphabet a.alphabetSize && a.search word.toArray ∅ [(q, 0)]

def accepts (a : Automaton) (word : Sample) : Bool :=
  match a.start? with
  | some q => a.acceptsFrom q word
  | none => false

end LangBench.Automaton
