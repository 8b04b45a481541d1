import LangBench.Benchmark.Basic
import LangBench.Proofs.Outcome

/-!
What a run has gone through that has come to figures.
-/

namespace LangBench

namespace Benchmark

variable {b : Benchmark} {lang net : String} {stats : Stats} {trace : Trace}

/-- What a pair goes through that comes to figures. -/
structure PairRun (b : Benchmark) (lang net : String) (stats : Stats) (trace : Trace) where
  langInstance : Instance
  netInstance : Instance
  prepared : Prepared
  model : Net
  maxLength : Option Nat
  maxSamples : Nat
  testSamples : Nat
  ready : model.State
  trained : Net.Trained model Enumeration
  candidates : List Sample
  last : model.State
  get_lang : b.config.langs.get? lang = some langInstance
  get_net : b.config.nets.get? net = some netInstance
  prepare_eq : b.registry.prepare langInstance.preset langInstance.params = .ok prepared
  get_model : b.registry.nets.get? netInstance.preset = some model
  maxLength_eq : prepared.params.optionalNat Params.maxLength = .ok maxLength
  maxSamples_eq : prepared.params.nat Params.maxSamples = .ok maxSamples
  testSamples_eq : prepared.params.nat Params.testSamples = .ok testSamples
  init_eq : model.init (model.mergedParams prepared netInstance.params) model.fresh =
    (.ok (), ready)
  trainOn_eq : model.trainOn (pull Enumeration.step stepLimit)
    ⟨prepared.backend.generate maxLength, prepared.backend.shape, maxLength, maxSamples, .empty⟩
    ready = .ok trained
  candidates_eq : model.candidates testSamples trained.state = .ok (candidates, last)
  stats_eq : stats = .ofCandidates trained.feed.intake prepared.backend.accepts candidates
  trace_eq : trace = ⟨some (model.mergedParams prepared netInstance.params), some trained.samples,
    some candidates⟩

theorem findInstance_eq_ok {kind : Kind} {instances : Dict Instance} {name : String}
    {i : Instance} : findInstance kind instances name = .ok i ↔ instances.get? name = some i := by
  unfold findInstance
  split <;> simp_all

theorem exists_pairRun (h : Succeeds (b.runPair lang net) .empty stats trace) :
    Nonempty (PairRun b lang net stats trace) := by
  unfold runPair Registry.runInstances at h
  simp only [succeeds_bind, succeeds_liftExcept, findInstance_eq_ok] at h
  obtain ⟨l, _, ⟨hl, rfl⟩, n, _, ⟨hn, rfl⟩, p, _, ⟨hp, rfl⟩, h⟩ := h
  split at h
  · exact absurd h not_succeeds_throw
  · next model hmodel =>
    simp only [Net.prepare, Net.evaluate, succeeds_bind, succeeds_liftExcept,
      succeeds_modify, succeeds_pure] at h
    obtain ⟨s, _, ⟨_, _, rfl, _, _, ⟨hinit, rfl⟩, rfl, rfl⟩, maxLength, _, ⟨hlength, rfl⟩,
      maxSamples, _, ⟨hmax, rfl⟩, testSamples, _, ⟨htest, rfl⟩, trained, _, ⟨htrain, rfl⟩,
      _, _, rfl, ⟨candidates, last⟩, _, ⟨hcandidates, rfl⟩, _, _, rfl, rfl, rfl⟩ := h
    rw [mapError_eq_ok] at hcandidates
    exact ⟨{
      langInstance := l
      netInstance := n
      prepared := p
      model := model
      maxLength := maxLength
      maxSamples := maxSamples
      testSamples := testSamples
      ready := _
      trained := trained
      candidates := candidates
      last := last
      get_lang := hl
      get_net := hn
      prepare_eq := hp
      get_model := hmodel
      maxLength_eq := hlength
      maxSamples_eq := hmax
      testSamples_eq := htest
      init_eq := Prod.ext hinit rfl
      trainOn_eq := htrain
      candidates_eq := hcandidates
      stats_eq := rfl
      trace_eq := rfl }⟩

theorem PairRun.succeeds (run : PairRun b lang net stats trace) :
    Succeeds (b.runPair lang net) .empty stats trace := by
  unfold runPair Registry.runInstances
  simp only [succeeds_bind, succeeds_liftExcept, findInstance_eq_ok]
  refine ⟨_, _, ⟨run.get_lang, rfl⟩, _, _, ⟨run.get_net, rfl⟩, _, _, ⟨run.prepare_eq, rfl⟩, ?_⟩
  split
  · next hnone => simp [run.get_model] at hnone
  · next model hmodel =>
    obtain rfl := Option.some.inj (run.get_model.symm.trans hmodel)
    simp only [Net.prepare, Net.evaluate, succeeds_bind, succeeds_liftExcept, succeeds_modify,
      succeeds_pure, mapError_eq_ok]
    refine ⟨run.ready, _, ⟨(), _, rfl, (), _, ⟨congrArg Prod.fst run.init_eq, rfl⟩,
        congrArg Prod.snd run.init_eq, rfl⟩,
      _, _, ⟨run.maxLength_eq, rfl⟩, _, _, ⟨run.maxSamples_eq, rfl⟩, _, _,
      ⟨run.testSamples_eq, rfl⟩, _, _, ⟨run.trainOn_eq, rfl⟩, (), _, rfl, _, _,
      ⟨run.candidates_eq, rfl⟩, (), _, rfl, run.stats_eq.symm, run.trace_eq.symm⟩

theorem succeeds_runPair_iff : Succeeds (b.runPair lang net) .empty stats trace ↔
    (b.report lang net).outcome = .ok stats ∧ (b.report lang net).trace = trace :=
  Prod.ext_iff

end Benchmark

end LangBench
