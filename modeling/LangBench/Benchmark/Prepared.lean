import LangBench.Registry

/-!
Preparing a language: merging its parameters, building its backend and checking that the two fit.
-/

namespace LangBench

/-- A language that is ready to be sampled. -/
structure Prepared where
  lang : Language
  params : Params
  backend : Backend

namespace Language

/-- The parameters of a language: overrides above its own defaults above those of every run. -/
def mergedParams (l : Language) (overrides : Params) : Params :=
  .layered [.globalDefaults, .ofSpecs l.params, overrides]

/-- Build the backend of a language. It has to have the shape of the language and may use no other
symbols. -/
def prepare (l : Language) (overrides : Params) : Except RunError Prepared := do
  let params := l.mergedParams overrides
  let backend ← l.build params
  (l.shape.checkCompatible backend.shape).mapError .shape
  if l.alphabetSize < backend.alphabetSize then
    throw (.alphabetMismatch l.name l.alphabetSize backend.alphabetSize)
  return ⟨l, params, backend⟩

end Language

def Registry.prepare (r : Registry) (preset : String) (overrides : Params) :
    Except RunError Prepared :=
  match r.langs.get? preset with
  | some l => l.prepare overrides
  | none => .error (.unknownPreset .lang preset)

end LangBench
