import LangBench.Automaton.Walk
import LangBench.Grammar.Cfg

/-!
Enumerations of the samples of a language, by walking an automaton or by deriving from a grammar.
-/

namespace LangBench

/-- An enumeration in progress. -/
inductive Enumeration where
  | walk (w : Walk)
  | derivations (d : Derivations)

def Step.map {σ : Type u} {τ : Type v} (f : σ → τ) : Step σ → Step τ
  | .emit x next => .emit x (f next)
  | .skip next => .skip (f next)
  | .done => .done

namespace Enumeration

def step : Enumeration → Step Enumeration
  | .walk w => w.step.map .walk
  | .derivations d => d.step.map .derivations

def next (budget : Nat) (e : Enumeration) : Pull Enumeration := pull step budget e

/-- The first samples, each found within a number of steps. -/
def first (budget n : Nat) (e : Enumeration) : Taken := take step budget n e

end Enumeration

end LangBench
