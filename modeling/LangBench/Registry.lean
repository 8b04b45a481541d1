import LangBench.Language.Presets
import LangBench.Net.Presets

/-!
Registries: the languages and nets that a configuration can name.
-/

namespace LangBench

/-- Languages and nets by name, and the kinds of backends. -/
structure Registry where
  langs : Dict Language
  nets : Dict Net
  backends : List BackendInfo

namespace Registry

def empty : Registry := ⟨.empty, .empty, []⟩

/-- Add a language under its own name, replacing another of that name. -/
def withLang (r : Registry) (l : Language) : Registry := { r with langs := r.langs.insert l.name l }

/-- Add a net under its own name, replacing another of that name. -/
def withNet (r : Registry) (n : Net) : Registry := { r with nets := r.nets.insert n.name n }

def withBackends (r : Registry) (infos : List BackendInfo) : Registry :=
  { r with backends := r.backends ++ infos }

def builtin : Registry :=
  empty.withBackends [.fsm, .cfg]
    |>.withLang .toyFsm
    |>.withLang .toyCfg
    |>.withLang .parityFsm
    |>.withLang .dyckCfg
    |>.withNet .markov
    |>.withNet .uniform

def renderNames (names : List String) : String :=
  "[" ++ ", ".intercalate (names.map fun s ↦ "\"" ++ s ++ "\"") ++ "]"

def summary (r : Registry) : String :=
  "Registry \x7b langs: " ++ renderNames r.langs.keys ++ ", nets: " ++ renderNames r.nets.keys
    ++ ", backends: " ++ renderNames (r.backends.map (·.name)) ++ " \x7d"

end Registry

end LangBench
