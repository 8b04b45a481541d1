import LangBench.Net.Basic

/-!
The net that learns nothing and produces random samples: any length up to the bound is equally
likely, and so is any symbol.
-/

namespace LangBench

/-- A net that produces random samples. -/
structure Uniform where
  maxLength : Nat
  alphabetSize : Nat
  stream : WordStream

namespace Uniform

def name : String := "uniform"

def seedSpec : ParamSpec := ⟨"seed", "Seed of the sampling generator", .ofNat 42⟩

def fresh : Uniform := ⟨0, 1, .ofSeed 0⟩

/-- Take over the parameters one after the other, up to the first that is bad. -/
def init (params : Params) : ExceptT RunError (StateM Uniform) Unit := do
  let maxLength ← liftExcept (Net.requiredMaxLength name params)
  modify fun u ↦ { u with maxLength }
  let alphabetSize ← liftExcept (Net.requiredAlphabetSize params)
  modify fun u ↦ { u with alphabetSize }
  let seed ← liftExcept (params.seed seedSpec.name)
  modify fun u ↦ { u with stream := .ofSeed (.ofNat seed) }

def drawSymbols (bound : Nat) : Nat → Draw Sample
  | 0 => return []
  | n + 1 => do
    let x ← Draw.below Draw.word32 UInt32.size bound
    return UInt32.ofNat x :: (← drawSymbols bound n)

/-- Draw a length and so many symbols. The alphabet size counts modulo `2 ^ 32`. -/
def generate (u : Uniform) : Except NetFault (Sample × Uniform) :=
  let (length, stream) := (Draw.upTo u.maxLength).run u.stream
  let bound := u.alphabetSize % UInt32.size
  if bound = 0 ∧ length ≠ 0 then .error .emptyAlphabet
  else
    let (sample, stream) := (drawSymbols bound length).run stream
    .ok (sample, { u with stream })

end Uniform

end LangBench
