import LangBench.Sample

/-!
Nondeterministic finite automata.

States are numbered in the order in which they are added, and a transition names its targets by
number. The targets of a symbol keep the order in which they were given, repetitions included.
A state is terminal if it is flagged so or has no transition at all.
-/

namespace LangBench

/-- The number of a state. -/
abbrev StateId := Nat

/-- Why an automaton cannot be extended. -/
inductive AutomatonError where
  | unknownState (state : StateId)
  | symbolOutOfAlphabet (symbol : Symbol) (alphabetSize : Nat)
  deriving DecidableEq

/-- A state and the transitions that leave it. -/
structure State where
  /-- The targets of each symbol that has an entry; symbols ascend. -/
  transitions : List (Symbol × List StateId)
  terminal : Bool
  deriving DecidableEq

/-- A finite automaton over the symbols below `alphabetSize`. -/
structure Automaton where
  states : Array State
  /-- The number of the start state; without states there is none. -/
  start : StateId
  alphabetSize : Nat
  deriving DecidableEq

namespace State

/-- Whether a word may end here. -/
def isTerminal (s : State) : Bool := s.terminal || s.transitions.isEmpty

def targets (s : State) (x : Symbol) : List StateId := (s.transitions.lookup x).getD []

/-- Append targets to the entry of a symbol, making the entry if there is none. -/
def extendEntry (x : Symbol) (targets : List StateId) :
    List (Symbol × List StateId) → List (Symbol × List StateId)
  | [] => [(x, targets)]
  | e :: es =>
    if x < e.1 then (x, targets) :: e :: es
    else if x = e.1 then (x, e.2 ++ targets) :: es
    else e :: extendEntry x targets es

/-- Append targets to those of a symbol. -/
def extend (s : State) (x : Symbol) (targets : List StateId) : State :=
  { s with transitions := extendEntry x targets s.transitions }

/-- One edge for each symbol and target: symbols ascend, targets keep their order. -/
def edges (s : State) : List (Symbol × StateId) :=
  s.transitions.flatMap fun (x, ts) ↦ ts.map fun t ↦ (x, t)

end State

namespace Automaton

def empty (alphabetSize : Nat) : Automaton := ⟨#[], 0, alphabetSize⟩

def addState (a : Automaton) (terminal : Bool) : StateId × Automaton :=
  (a.states.size, { a with states := a.states.push ⟨[], terminal⟩ })

def addStates (a : Automaton) (count : Nat) (terminal : Bool) : List StateId × Automaton :=
  (List.range' a.states.size count,
    { a with states := a.states ++ Array.replicate count ⟨[], terminal⟩ })

def checkState (a : Automaton) (q : StateId) : Except AutomatonError Unit :=
  if q < a.states.size then .ok () else .error (.unknownState q)

def setStart (a : Automaton) (q : StateId) : Except AutomatonError Automaton := do
  a.checkState q
  return { a with start := q }

def setTerminal (a : Automaton) (q : StateId) (terminal : Bool) :
    Except AutomatonError Automaton := do
  a.checkState q
  return { a with states := a.states.modify q fun s ↦ { s with terminal } }

/-- Add transitions to several targets on one symbol. Without targets the state still gets an entry
for the symbol. -/
def addTransition (a : Automaton) (source : StateId) (x : Symbol) (targets : List StateId) :
    Except AutomatonError Automaton := do
  a.checkState source
  targets.forM a.checkState
  if x.toNat < a.alphabetSize then
    return { a with states := a.states.modify source fun s ↦ s.extend x targets }
  else throw (.symbolOutOfAlphabet x a.alphabetSize)

/-- Build an automaton of states, given by their terminal flags, and transitions, given by source,
symbol and targets. -/
def ofParts (alphabetSize : Nat) (flags : List Bool)
    (transitions : List (StateId × Symbol × List StateId)) (start : Option StateId) :
    Except AutomatonError Automaton := do
  let states := flags.foldl (fun a terminal ↦ (a.addState terminal).2) (.empty alphabetSize)
  let a ← transitions.foldlM (fun a (source, x, targets) ↦ a.addTransition source x targets) states
  match start with
  | some q => a.setStart q
  | none => return a

def start? (a : Automaton) : Option StateId :=
  if a.start < a.states.size then some a.start else none

end Automaton

def AutomatonError.message : AutomatonError → String
  | .unknownState q => "state not found: StateId(" ++ toString q ++ ")"
  | .symbolOutOfAlphabet x n =>
    "symbol " ++ toString x ++ " is outside the alphabet of size " ++ toString n

end LangBench
