import LangBench.Benchmark.Pair

/-!
Benchmarks: every configured language against every configured net.

A pair that fails is reported and does not keep the others from running.
-/

namespace LangBench

/-- A configuration all of whose presets exist in a registry. -/
structure Benchmark where
  registry : Registry
  config : Config

/-- The outcome of a pair. -/
structure PairReport where
  lang : String
  net : String
  trace : Trace
  outcome : Except RunError Stats

namespace Benchmark

/-- Refuse a configuration that names a preset that does not exist. -/
def ofConfig (r : Registry) (c : Config) : Except RunError Benchmark :=
  match c.validate r.langs.contains r.nets.contains with
  | .ok () => .ok ⟨r, c⟩
  | .error e => .error e

def findInstance (kind : Kind) (instances : Dict Instance) (name : String) :
    Except RunError Instance :=
  match instances.get? name with
  | some i => .ok i
  | none => .error (.unknownInstance kind name)

def runPair (b : Benchmark) (lang net : String) : Run Stats := do
  let l ← liftExcept (findInstance .lang b.config.langs lang)
  let n ← liftExcept (findInstance .net b.config.nets net)
  b.registry.runInstances l n

def report (b : Benchmark) (lang net : String) : PairReport :=
  let (outcome, trace) := ((b.runPair lang net).run.run .empty).run
  ⟨lang, net, trace, outcome⟩

/-- All pairs in order: by the names of languages, then by those of nets. -/
def pairs (b : Benchmark) : List (String × String) :=
  b.config.langs.keys.flatMap fun lang ↦ b.config.nets.keys.map fun net ↦ (lang, net)

def run (b : Benchmark) : List PairReport := b.pairs.map fun (lang, net) ↦ b.report lang net

end Benchmark

end LangBench
