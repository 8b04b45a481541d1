import LangBench.Net.Basic
import LangBench.Net.Contexts

/-!
The net that predicts a symbol from those before it.

For every context of at most `order` symbols it counts what follows. A boundary stands before and
after each training sample; it is the number after the last symbol. The next symbol is drawn by the
counts of the longest context that is known, and uniformly if none is.
-/

namespace LangBench

/-- A net that predicts a symbol from those before it. -/
structure Markov where
  order : Nat
  maxLength : Nat
  alphabetSize : Nat
  contexts : Option ContextTree
  stream : WordStream

namespace Markov

def name : String := "markov"

/-- The parameter that sets the length of the longest contexts. -/
def orderSpec : ParamSpec :=
  ⟨"order", "Number of previous symbols used as context, at most max_length", .ofNat 2⟩

def seedSpec : ParamSpec := ⟨"seed", "Seed of the sampling generator", .ofNat 42⟩

def fresh : Markov := ⟨2, 0, 1, none, .ofSeed 0⟩

/-- The symbol before and after each sample. -/
def boundary (m : Markov) : Symbol := .ofNat m.alphabetSize

/-- Read the length of the contexts, which may not exceed that of the samples. -/
def requiredOrder (maxLength : Nat) (params : Params) : Except RunError Nat := do
  let order ← params.nat orderSpec.name
  if maxLength < order then
    throw (.invalidParameter orderSpec.name (.orderTooLarge order maxLength))
  return order

/-- Take over the parameters one after the other, up to the first that is bad. -/
def init (params : Params) : ExceptT RunError (StateM Markov) Unit := do
  let maxLength ← liftExcept (Net.requiredMaxLength name params)
  modify fun m ↦ { m with maxLength }
  let alphabetSize ← liftExcept (Net.requiredAlphabetSize params)
  modify fun m ↦ { m with alphabetSize }
  let order ← liftExcept (requiredOrder maxLength params)
  modify fun m ↦ { m with order }
  let seed ← liftExcept (params.seed seedSpec.name)
  modify fun m ↦ { m with stream := .ofSeed (.ofNat seed), contexts := none }

/-- Count along a row of symbols, after a history that is held last symbol first. -/
def observeAll (width order : Nat) (history : List Symbol) :
    List Symbol → Option ContextTree → Except NetFault (Option ContextTree)
  | [], known => .ok known
  | x :: rest, known =>
    (ContextTree.observe width x (history.take order) known).bind fun t ↦
      observeAll width order (x :: history) rest (some t)

/-- Count along a sample between boundaries. A sample outside the alphabet is ignored. -/
def absorb (x : Sample) (m : Markov) : Except NetFault Markov :=
  if x.withinAlphabet m.alphabetSize then
    let history := List.replicate m.order m.boundary
    (observeAll (m.alphabetSize + 1) m.order history (x ++ [m.boundary]) m.contexts).map
      fun contexts ↦ { m with contexts }
  else .ok m

/-- What can follow a history that is held last symbol first: what has followed the longest known
context at its end. -/
def weights (m : Markov) (history : List Symbol) : List (Symbol × Nat) :=
  match m.contexts with
  | some t => (t.longest (history.take m.order)).counts
  | none => []

/-- Draw what follows a history that is held last symbol first. -/
def draw (m : Markov) (history : List Symbol) : Draw Symbol := do
  match ← Draw.weighted (m.weights history) with
  | some x => return x
  | none => return UInt32.ofNat (← Draw.below Draw.word32 UInt32.size (m.boundary.toNat + 1))

/-- Draw symbols until the boundary comes up, but at most `n`, after a history that is held last
symbol first. -/
def drawSample (m : Markov) (history : List Symbol) : Nat → Draw Sample
  | 0 => return []
  | n + 1 => do
    let x ← m.draw history
    if x = m.boundary then return []
    else return x :: (← drawSample m (x :: history) n)

def generate (m : Markov) : Sample × Markov :=
  let history := List.replicate m.order m.boundary
  let (sample, stream) := (m.drawSample history m.maxLength).run m.stream
  (sample, { m with stream })

end Markov

end LangBench
