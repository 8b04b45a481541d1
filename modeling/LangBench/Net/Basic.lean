import LangBench.Params.Basic
import LangBench.Random.Draw

/-!
Nets: models that learn from samples and produce candidates.

A net is prepared with parameters, absorbs training samples one by one as long as it wants more, and
then produces candidates. Preparing may fail halfway, and what it has stored by then stays.
-/

namespace LangBench

/-- A kind of net. -/
structure Net where
  name : String
  description : String
  params : List ParamSpec
  State : Type
  fresh : State
  init : Params → State → Except RunError Unit × State
  /-- Whether to go on with another training sample, where so many have been absorbed. -/
  wantsMore : Nat → Bool
  absorb : Sample → State → Except NetFault State
  generate : State → Except NetFault (Sample × State)

namespace Net

/-- Absorb samples as long as the net wants more, and return those that are left. -/
def train (net : Net) (samples : List Sample) (s : net.State) :
    Except NetFault (net.State × List Sample) :=
  go 0 samples s
where
  go (absorbed : Nat) : List Sample → net.State → Except NetFault (net.State × List Sample)
    | [], s => .ok (s, [])
    | x :: rest, s =>
      if net.wantsMore absorbed then (net.absorb x s).bind (go (absorbed + 1) rest)
      else .ok (s, x :: rest)

def candidates (net : Net) (n : Nat) (s : net.State) : Except NetFault (List Sample × net.State) :=
  go n s []
where
  /-- Add the remaining candidates to those already produced, held in reverse. -/
  go : Nat → net.State → List Sample → Except NetFault (List Sample × net.State)
    | 0, s, produced => .ok (produced.reverse, s)
    | n + 1, s, produced =>
      (net.generate s).bind fun (x, s) ↦ go n s (x :: produced)

/-- The bound on the length of samples, which the net `name` cannot do without. -/
def requiredMaxLength (name : String) (params : Params) : Except RunError Nat := do
  match ← params.optionalNat Params.maxLength with
  | some n => return n
  | none => throw (.unsupportedParameter name Params.maxLength)

/-- The number of symbols, of which there has to be one. -/
def requiredAlphabetSize (params : Params) : Except RunError Nat := do
  match ← params.nat Params.alphabetSize with
  | 0 => throw (.invalidParameter Params.alphabetSize .notPositive)
  | n => return n

end Net

end LangBench
