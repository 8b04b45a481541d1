import LangBench.Error

/-!
Parameters of a run.

Parameters are JSON values with names. Several layers of them, such as defaults and overrides, are
merged into one; of two layers that bind a name the later one counts, also if it binds null.
-/

namespace LangBench

/-- Parameters by name. -/
abbrev Params := Dict Json

/-- A parameter that can be set. -/
structure ParamSpec where
  name : String
  description : String
  default : Json

namespace Params

def maxSamples : String := "max_samples"

/-- The name of the bound on the length of samples; null leaves it open. -/
def maxLength : String := "max_length"

/-- The name of the number of passes over the training samples. -/
def epochs : String := "epochs"

/-- The name of the number of candidates that a trained net is asked for. -/
def testSamples : String := "test_samples"

def alphabetSize : String := "alphabet_size"

def shape : String := "shape"

/-- The lowest layer of every run. -/
def globalDefaults : Params :=
  .ofList [
    (maxSamples, .ofNat 100),
    (maxLength, .null),
    (epochs, .ofNat 10),
    (testSamples, .ofNat 100)]

/-- The defaults of some parameters; of two with one name the later one counts. -/
def ofSpecs (specs : List ParamSpec) : Params := .ofList (specs.map fun s ↦ (s.name, s.default))

/-- Merge layers, the lowest first. -/
def layered (layers : List Params) : Params := layers.foldl Dict.extend .empty

def optionalNat (ps : Params) (name : String) : Except RunError (Option Nat) :=
  match ps.get? name with
  | none | some .null => .ok none
  | some v =>
    match v.asNat? with
    | some n => .ok (some n)
    | none => .error (.invalidParameter name (.notNatural v))

def nat (ps : Params) (name : String) : Except RunError Nat := do
  match ← ps.optionalNat name with
  | some n => return n
  | none => throw (.invalidParameter name .missing)

/-- A seed: a natural number for which null does not count as absent. -/
def seed (ps : Params) (name : String) : Except RunError Nat :=
  match ps.get? name with
  | none => .error (.invalidParameter name .missing)
  | some v =>
    match v.asNat? with
    | some n => .ok n
    | none => .error (.invalidParameter name (.notNatural v))

end Params

end LangBench
