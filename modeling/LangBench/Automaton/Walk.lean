import LangBench.Automaton.Basic
import LangBench.Automaton.Queue
import LangBench.Enumeration.Step

/-!
Enumerating the words of an automaton breadth first.

A walk keeps a queue of the words read so far, each with the state it has led to. Every path that
ends in a terminal state hands out its word, so a word comes once for each of its paths, shorter
words first.
-/

namespace LangBench

/-- A walk through an automaton. -/
structure Walk where
  automaton : Automaton
  /-- No longer words are read. -/
  maxLength : Option Nat
  /-- Words read, last symbol first, and the states they have led to. -/
  queue : Queue (List Symbol × StateId)

namespace Walk

/-- Whether a word of length `n` may be read on. -/
def mayGrow (maxLength : Option Nat) (n : Nat) : Bool := maxLength.all (n < ·)

/-- The words that are one symbol longer, with the states they lead to. -/
def children (maxLength : Option Nat) (word : List Symbol) (s : State) :
    List (List Symbol × StateId) :=
  if mayGrow maxLength word.length then s.edges.map fun (x, q) ↦ (x :: word, q) else []

/-- Take the first word from the queue, and hand it out if its state is terminal. -/
def step (w : Walk) : Step Walk :=
  match w.queue.pop? with
  | none => .done
  | some ((word, q), queue) =>
    match w.automaton.states[q]? with
    | none => .skip { w with queue }
    | some s =>
      let next := { w with queue := queue.pushAll (children w.maxLength word s) }
      if s.isTerminal then .emit word.reverse next else .skip next

end Walk

namespace Automaton

/-- Enumerate the words that lead from a state to a terminal one. -/
def walkFrom (a : Automaton) (q : StateId) (maxLength : Option Nat) : Walk :=
  ⟨a, maxLength, .singleton ([], q)⟩

/-- Enumerate the words of the automaton; without states there are none. -/
def walk (a : Automaton) (maxLength : Option Nat) : Walk :=
  match a.start? with
  | some q => a.walkFrom q maxLength
  | none => ⟨a, maxLength, ⟨[], []⟩⟩

end Automaton

end LangBench
