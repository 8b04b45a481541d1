import LangBench.Proofs.Benchmark.Failures
import LangBench.Proofs.Benchmark.Recall

/-!
The pairs of a benchmark run each on its own.

A configuration that has been checked against a registry names only presets that the registry has,
so all that a pair looks up is there. What comes of a pair depends on its two instances alone.
-/

namespace LangBench

namespace Benchmark

variable {r : Registry} {c : Config} {b : Benchmark} {lang net : String} {i j : Instance}

theorem mem_pairs_iff : (lang, net) ∈ b.pairs ↔
    (∃ i, b.config.langs.get? lang = some i) ∧ ∃ j, b.config.nets.get? net = some j := by
  simp [pairs, Dict.mem_keys_iff]

theorem runPair_eq (hl : b.config.langs.get? lang = some i) (hn : b.config.nets.get? net = some j) :
    b.runPair lang net = b.registry.runInstances i j := by
  rw [runPair, findInstance_eq_ok.2 hl, findInstance_eq_ok.2 hn]
  rfl

/-- The strings of `evens`, and as another instance such strings of any length. -/
def unbounded : Config :=
  ⟨.ofList [("evens", evensLang), ("open", ⟨"parity_fsm", .empty⟩)],
    .ofList [("full", ⟨"markov", .empty⟩)]⟩

end Benchmark

end LangBench
