import LangBench.Params.Basic

/-!
Languages: named recipes for backends.
-/

namespace LangBench

/-- A recipe for a backend, with parameters that can be set. -/
structure Language where
  name : String
  description : String
  alphabetSize : Nat
  shape : Shape
  params : List ParamSpec
  build : Params → Except RunError Backend

namespace Language

def ofAutomaton (name description : String) (alphabetSize : Nat)
    (automaton : Except AutomatonError Automaton) : Language where
  name := name
  description := description
  alphabetSize := alphabetSize
  shape := .sequence
  params := []
  build _ := (automaton.map Automaton.backend).mapError fun e ↦ .backend (.automaton e)

/-- The parameter that bounds the depth of derivations. -/
def depthSpec (default : Nat) : ParamSpec :=
  ⟨"max_depth", "Maximum expansion depth of the grammar", .ofNat default⟩

/-- The language of a grammar whose derivations are listed to a depth that can be set. -/
def ofGrammar (name description : String) (text : String) (alphabet : List String)
    (depth : Nat) : Language where
  name := name
  description := description
  alphabetSize := alphabet.length
  shape := .sequence
  params := [depthSpec depth]
  build params := do
    let maxDepth ← params.nat (depthSpec depth).name
    match Grammar.parseWithAlphabet text alphabet with
    | .ok grammar => return Cfg.backend ⟨grammar, some maxDepth⟩
    | .error e => throw (.backend (.grammar e))

end Language

end LangBench
