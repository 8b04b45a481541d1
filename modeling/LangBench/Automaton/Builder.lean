import LangBench.Automaton.Basic

/-!
Building an automaton in place, one call after another.

A call that is refused stops where it is: what it has changed until then stays changed.
-/

namespace LangBench.Automaton

/-- What changes an automaton in place and may be refused. -/
abbrev Builder := ExceptT AutomatonError (StateM Automaton)

/-- The answer, and what has become of the automaton. -/
def Builder.exec {α : Type} (x : Builder α) (a : Automaton) :
    Except AutomatonError α × Automaton :=
  (x.run.run a).run

namespace Builder

def checkState (q : StateId) : Builder Unit := do
  liftExcept ((← get).checkState q)

def addState (terminal : Bool) : Builder StateId := modifyGet fun a ↦ a.addState terminal

def addStates (count : Nat) (terminal : Bool) : Builder (List StateId) :=
  (List.range count).mapM fun _ ↦ addState terminal

def setStart (q : StateId) : Builder Unit := do
  checkState q
  modify fun a ↦ { a with start := q }

def setTerminal (q : StateId) (terminal : Bool) : Builder Unit := do
  checkState q
  modify fun a ↦ { a with states := a.states.modify q fun s ↦ { s with terminal } }

def addTransition (source : StateId) (x : Symbol) (targets : List StateId) : Builder Unit := do
  checkState source
  targets.forM checkState
  let n := (← get).alphabetSize
  if n ≤ x.toNat then throw (.symbolOutOfAlphabet x n)
  modify fun a ↦ { a with states := a.states.modify source fun s ↦ s.extend x targets }

end Builder

/-- A call of the builder, with its arguments. -/
inductive Call where
  | addState (terminal : Bool)
  | addStates (count : Nat) (terminal : Bool)
  | setStart (state : StateId)
  | setTerminal (state : StateId) (terminal : Bool)
  | addTransition (source : StateId) (symbol : Symbol) (targets : List StateId)
  deriving DecidableEq

/-- Make a call. The answer are the states it has added. -/
def Call.make : Call → Builder (List StateId)
  | .addState terminal => do return [← Builder.addState terminal]
  | .addStates count terminal => Builder.addStates count terminal
  | .setStart q => do
    Builder.setStart q
    return []
  | .setTerminal q terminal => do
    Builder.setTerminal q terminal
    return []
  | .addTransition source x targets => do
    Builder.addTransition source x targets
    return []

def call (a : Automaton) (c : Call) : Except AutomatonError (List StateId) × Automaton :=
  c.make.exec a

/-- The automaton after a row of calls, those that are refused included. -/
def afterCalls (a : Automaton) (calls : List Call) : Automaton :=
  calls.foldl (fun a c ↦ (a.call c).2) a

end LangBench.Automaton
