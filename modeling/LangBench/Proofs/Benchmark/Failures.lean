import LangBench.Proofs.Benchmark.Runs
import LangBench.Proofs.Benchmark.Stock

/-!
What a run of two instances can fail with. It fails for want of an instance or a preset if that is
not there, or if a hook of the language or of the net says so.
-/

namespace LangBench

/-- The error says that an instance or a preset does not exist. -/
def RunError.IsUnknown : RunError → Prop
  | .unknownPreset _ _ | .unknownInstance _ _ => True
  | _ => False

namespace Params

variable {ps : Params} {name : String} {e : RunError}

end Params

/-- No building of the language fails for want of an instance or a preset. -/
def Language.Reticent (l : Language) : Prop :=
  ∀ params e, l.build params = .error e → ¬ e.IsUnknown

/-- No preparing of the net fails for want of an instance or a preset. -/
def Net.Reticent (n : Net) : Prop :=
  ∀ params e, (n.init params n.fresh).1 = .error e → ¬ e.IsUnknown

namespace Language

end Language

namespace Net

section Required

variable {name : String} {params : Params} {e : RunError}

end Required

variable {n : Net} {params : Params} {p : Prepared} {s : n.State} {t : Trace} {e : RunError}

end Net

namespace Registry

variable {r : Registry} {i j : Instance} {l : Language} {n : Net} {t : Trace} {e : RunError}

/-- No language and no net of the registry speaks of instances and presets. -/
structure Reticent (r : Registry) : Prop where
  langs : ∀ name l, r.langs.get? name = some l → l.Reticent
  nets : ∀ name n, r.nets.get? name = some n → n.Reticent

theorem Reticent.withLang (hr : r.Reticent) (hl : l.Reticent) : (r.withLang l).Reticent where
  langs name l' hget := by
    rw [Registry.withLang, Dict.get?_insert] at hget
    split at hget
    · exact Option.some.inj hget ▸ hl
    · exact hr.langs name l' hget
  nets := hr.nets

theorem Reticent.withNet (hr : r.Reticent) (hn : n.Reticent) : (r.withNet n).Reticent where
  langs := hr.langs
  nets name n' hget := by
    rw [Registry.withNet, Dict.get?_insert] at hget
    split at hget
    · exact Option.some.inj hget ▸ hn
    · exact hr.nets name n' hget

end Registry

end LangBench
