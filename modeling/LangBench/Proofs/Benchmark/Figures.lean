import LangBench.Proofs.Benchmark.Recall
import LangBench.Proofs.Net.Candidates

/-!
The figures of a run are those of the samples that the net was trained on and of its candidates.

A backend that is told a bound lists no longer samples, so the feed has none to skip; and a net that
takes all it is given is trained on all samples of the backend, up to the limit.
-/

namespace LangBench

theorem Feed.lengthOf_sequence (x : Sample) : Feed.lengthOf .sequence x = x.length := rfl

namespace Backend.Stock

variable {b : Backend}

theorem shape_eq (h : b.Stock) : b.shape = .sequence := by
  cases h with
  | automaton h => rfl
  | grammar h maxDepth => rfl

/-- A feed from a backend that has been told the same bound passes on all that is listed. -/
theorem passes_of_steps (h : b.Stock) {f : Feed Enumeration}
    (hsource : f.source = b.generate f.maxLength) (hshape : f.shape = b.shape) {out : List Sample}
    {e : Enumeration} (hs : Steps Enumeration.step f.source out e) :
    ∀ x ∈ out, f.passes x = true := by
  intro x hx
  rw [Feed.passes, hshape, h.shape_eq, Feed.lengthOf_sequence]
  cases hlength : f.maxLength with
  | none => rfl
  | some bound =>
    rw [hsource, hlength] at hs
    have hle := (((h.only_generate bound).of_steps hs).1 x hx).2.1
    simpa using hle

end Backend.Stock

theorem Net.KeepsLength.absorbAll {net : Net} {bound : net.State → Nat} (hnet : net.KeepsLength bound)
    {samples : List Sample} {s s' : net.State} (h : net.absorbAll s samples = .ok s') :
    bound s' = bound s :=
  absorbAll_invariant (fun t ↦ bound t = bound s)
    (fun x t u ht h ↦ (hnet.absorb x t u h).trans ht) rfl h

/-- Figures of a run with a backend: which samples the net was trained on, and which candidates it
has produced. -/
structure Stats.Describes (stats : Stats) (backend : Backend) (maxLength : Option Nat)
    (maxSamples testSamples bound : Nat) (training candidates : List Sample) : Prop where
  listed : ∃ last, Steps Enumeration.step (backend.generate maxLength) training last
  length_training : (training.length : ℕ∞) =
    min (maxSamples : ℕ∞) (sampleCount Enumeration.step (backend.generate maxLength))
  generated : stats.intake.generated = training.length
  skipped : stats.intake.skipped = 0
  used : stats.intake.used = training.length
  least : stats.intake.minLength = (training.map List.length).min?
  greatest : stats.intake.maxLength = (training.map List.length).max?
  length_candidates : candidates.length = testSamples
  tested : stats.testSamples = testSamples
  correct : stats.correct = candidates.countP backend.accepts
  correct_le : stats.correct ≤ testSamples
  length_le : ∀ x ∈ candidates, x.length ≤ bound

namespace Benchmark

variable {b : Benchmark} {lang net : String} {stats : Stats} {trace : Trace}

/-- The net has been trained on the first samples of the backend, and the books are those of a feed
that has skipped nothing. -/
theorem PairRun.training_books (run : PairRun b lang net stats trace)
    (hstock : run.prepared.backend.Stock) (hwants : ∀ n, run.model.wantsMore n = true) :
    (∃ last, Steps Enumeration.step (run.prepared.backend.generate run.maxLength)
      run.trained.samples last) ∧
    (run.trained.samples.length : ℕ∞) = min (run.maxSamples : ℕ∞)
      (sampleCount Enumeration.step (run.prepared.backend.generate run.maxLength)) ∧
    stats.intake = ⟨run.trained.samples.length, 0, run.trained.samples.length,
      (run.trained.samples.map List.length).min?, (run.trained.samples.map List.length).max?⟩ := by
  obtain ⟨pulled, hfed, hsamples, -, hspent⟩ := Net.trainOn_fed run.trainOn_eq
  have hpasses := hstock.passes_of_steps rfl rfl hfed.run
  obtain rfl : run.trained.samples = pulled := hsamples.trans (List.filter_eq_self.2 hpasses)
  refine ⟨⟨_, hfed.run⟩, hfed.length_eq_min (hspent hwants), ?_⟩
  have hbooks := hfed.intake_eq.trans (Feed.foldl_enter _ _)
  rw [Feed.books_of_forall_passes hpasses, hstock.shape_eq] at hbooks
  exact (congrArg Stats.intake run.stats_eq).trans hbooks

theorem PairRun.candidates_short (run : PairRun b lang net stats trace) {bound : run.model.State → Nat}
    (hmodel : run.model.KeepsLength bound) :
    run.candidates.length = run.testSamples ∧
      ∀ x ∈ run.candidates, x.length ≤ bound run.ready := by
  obtain ⟨pulled, -, -, hstate, -⟩ := Net.trainOn_fed run.trainOn_eq
  refine Net.candidates_ok (bound · = bound run.ready) (·.length ≤ bound run.ready)
    (fun s x s' hs hx ↦ ?_) (hmodel.absorbAll hstate) run.candidates_eq
  obtain ⟨hle, hbound⟩ := hmodel.generate s x s' hx
  exact ⟨hs ▸ hle, hbound.trans hs⟩

theorem PairRun.describes (run : PairRun b lang net stats trace)
    (hstock : run.prepared.backend.Stock) {bound : run.model.State → Nat}
    (hmodel : run.model.KeepsLength bound) :
    stats.Describes run.prepared.backend run.maxLength run.maxSamples run.testSamples
      (bound run.ready) run.trained.samples run.candidates := by
  obtain ⟨hlisted, hlength, hintake⟩ := run.training_books hstock hmodel.wantsMore
  obtain ⟨hdrawn, hshort⟩ := run.candidates_short hmodel
  have hstats := run.stats_eq
  exact {
    listed := hlisted
    length_training := hlength
    generated := by rw [hintake]
    skipped := by rw [hintake]
    used := by rw [hintake]
    least := by rw [hintake]
    greatest := by rw [hintake]
    length_candidates := hdrawn
    tested := (congrArg Stats.testSamples hstats).trans hdrawn
    correct := congrArg Stats.correct hstats
    correct_le := by
      rw [← hdrawn]
      exact (congrArg Stats.correct hstats).trans_le List.countP_le_length
    length_le := hshort }

/-- With a net that comes with the library no sample is skipped, all samples of the backend are used
up to the limit, and no candidate is longer than the net has been told. -/
theorem describes_of_report {langInstance netInstance : Instance} {p : Prepared} {model : Net}
    (hlang : b.config.langs.get? lang = some langInstance)
    (hnet : b.config.nets.get? net = some netInstance)
    (hp : b.registry.prepare langInstance.preset langInstance.params = .ok p)
    (hstock : p.backend.Stock)
    (hmodel : b.registry.nets.get? netInstance.preset = some model)
    (hbuiltin : model = .markov ∨ model = .uniform)
    (hrun : (b.report lang net).outcome = .ok stats) :
    ∃ maxLength maxSamples testSamples bound training candidates,
      p.params.optionalNat Params.maxLength = .ok maxLength ∧
      p.params.nat Params.maxSamples = .ok maxSamples ∧
      p.params.nat Params.testSamples = .ok testSamples ∧
      (model.mergedParams p netInstance.params).optionalNat Params.maxLength = .ok (some bound) ∧
      (b.report lang net).trace =
        ⟨some (model.mergedParams p netInstance.params), some training, some candidates⟩ ∧
      stats.Describes p.backend maxLength maxSamples testSamples bound training candidates := by
  obtain ⟨run⟩ := exists_pairRun (succeeds_runPair_iff.2 ⟨hrun, rfl⟩)
  obtain rfl := Option.some.inj (hlang.symm.trans run.get_lang)
  obtain rfl := Option.some.inj (hnet.symm.trans run.get_net)
  obtain rfl := Except.ok.inj (hp.symm.trans run.prepare_eq)
  obtain rfl := Option.some.inj (hmodel.symm.trans run.get_model)
  obtain ⟨bound, hkeeps⟩ : ∃ bound, run.model.KeepsLength bound := by
    rcases hbuiltin with h | h
    · rw [h]
      exact ⟨_, Markov.keepsLength⟩
    · rw [h]
      exact ⟨_, Uniform.keepsLength⟩
  exact ⟨run.maxLength, run.maxSamples, run.testSamples, bound run.ready, run.trained.samples,
    run.candidates, run.maxLength_eq, run.maxSamples_eq, run.testSamples_eq,
    hkeeps.init _ _ _ run.init_eq, run.trace_eq, run.describes hstock hkeeps⟩

theorem describes_of_report_evens :
    ∃ stats, (evens.report "evens" "full").outcome = .ok stats ∧ stats.intake.used = 4 ∧
      ∃ training candidates,
        (evens.report "evens" "full").trace =
          ⟨some (Net.markov.mergedParams evensPrepared .empty), some training, some candidates⟩ ∧
        stats.Describes evensPrepared.backend (some 2) 4 2 2 training candidates := by
  obtain ⟨stats, hrun, hused, -⟩ := report_evens
  have hlang : evens.config.langs.get? "evens" = some evensLang := by cbv
  have hnet : evens.config.nets.get? "full" = some ⟨"markov", .empty⟩ := by cbv
  have hmarkov : evens.registry.nets.get? "markov" = some .markov := by cbv
  have hstock := Registry.stock_builtin.backend prepare_evens
  have hmaxSamples : evensPrepared.params.nat Params.maxSamples = .ok 4 := by
    rw [params_evens]
    cbv
  have htestSamples : evensPrepared.params.nat Params.testSamples = .ok 2 := by
    rw [params_evens]
    cbv
  have hnetLength : (Net.markov.mergedParams evensPrepared .empty).optionalNat Params.maxLength =
      .ok (some 2) := by
    rw [netParams_evens]
    cbv
  obtain ⟨maxLength, maxSamples, testSamples, bound, training, candidates, hlength, hmax, htest,
    hbound, htrace, hdescribes⟩ :=
    describes_of_report hlang hnet prepare_evens hstock hmarkov (.inl rfl) hrun
  obtain rfl := Except.ok.inj (maxLength_evens.symm.trans hlength)
  obtain rfl := Except.ok.inj (hmaxSamples.symm.trans hmax)
  obtain rfl := Except.ok.inj (htestSamples.symm.trans htest)
  obtain rfl := Option.some.inj (Except.ok.inj (hnetLength.symm.trans hbound))
  exact ⟨stats, hrun, hused, training, candidates, htrace, hdescribes⟩

end Benchmark

end LangBench
