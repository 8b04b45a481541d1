import LangBench.Benchmark.Prepared
import LangBench.Benchmark.Stats
import LangBench.Config.Basic

/-!
Running a net against a language: training it on samples of the language and counting how many of
its candidates the language accepts.

A run leaves a trace of what the net was given, also if it fails.
-/

namespace LangBench

/-- What a net was given during a run. -/
structure Trace where
  netParams : Option Params
  training : Option (List Sample)
  candidates : Option (List Sample)

def Trace.empty : Trace := ⟨none, none, none⟩

/-- A step of a run, which may fail and leaves a trace. -/
abbrev Run := ExceptT RunError (StateM Trace)

/-- How many steps an enumeration may take from one sample to the next. -/
def stepLimit : Nat := 1 <<< 62

namespace Net

/-- What training comes to: the net, the last state of the feed, and the samples in order. -/
structure Trained (net : Net) (σ : Type) where
  state : net.State
  feed : Feed σ
  samples : List Sample

def trainOn {σ : Type} (net : Net) (pull : σ → Pull σ) (f : Feed σ) (s : net.State) :
    Except RunError (Trained net σ) :=
  go 0 f s []
where
  /-- Go on after so many samples, those already absorbed held in reverse. -/
  go (absorbed : Nat) (f : Feed σ) (s : net.State) (given : List Sample) :
      Except RunError (Trained net σ) :=
    if net.wantsMore absorbed then
      match h : f.next pull with
      | .ended f => .ok ⟨s, f, given.reverse⟩
      | .stalled => .error .stalled
      | .sample x f' =>
        have := Feed.next_remaining_lt h
        match net.absorb x s with
        | .ok s => go (absorbed + 1) f' s (x :: given)
        | .error e => .error (.netStopped e)
    else .ok ⟨s, f, given.reverse⟩
  termination_by f.remaining

/-- The parameters that a net is prepared with: overrides above its own defaults above those of the
language, with the alphabet size and the shape of the language. -/
def mergedParams (net : Net) (p : Prepared) (overrides : Params) : Params :=
  ((Params.layered [p.params, .ofSpecs net.params, overrides]).insert
    Params.alphabetSize (.ofNat p.lang.alphabetSize)).insert Params.shape p.lang.shape.toJson

def prepare (net : Net) (params : Params) : Run net.State := do
  modify fun t ↦ { t with netParams := some params }
  let (outcome, s) := net.init params net.fresh
  liftExcept outcome
  return s

/-- Train a prepared net on a language and test its candidates. -/
def evaluate (net : Net) (p : Prepared) (s : net.State) : Run Stats := do
  let maxLength ← liftExcept (p.params.optionalNat Params.maxLength)
  let maxSamples ← liftExcept (p.params.nat Params.maxSamples)
  let testSamples ← liftExcept (p.params.nat Params.testSamples)
  let feed : Feed Enumeration :=
    ⟨p.backend.generate maxLength, p.backend.shape, maxLength, maxSamples, .empty⟩
  let trained ← liftExcept (net.trainOn (Enumeration.next stepLimit) feed s)
  modify fun t ↦ { t with training := some trained.samples }
  let (candidates, _) ← liftExcept ((net.candidates testSamples trained.state).mapError RunError.netStopped)
  modify fun t ↦ { t with candidates := some candidates }
  return .ofCandidates trained.feed.intake p.backend.accepts candidates

end Net

/-- Run the instance of a net against the instance of a language. -/
def Registry.runInstances (r : Registry) (lang net : Instance) : Run Stats := do
  let p ← liftExcept (r.prepare lang.preset lang.params)
  match r.nets.get? net.preset with
  | none => throw (.unknownPreset .net net.preset)
  | some n =>
    let s ← n.prepare (n.mergedParams p net.params)
    n.evaluate p s

end LangBench
