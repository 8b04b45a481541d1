import LangBench.Proofs.Benchmark.Runs
import LangBench.Proofs.Benchmark.Stock
import LangBench.Proofs.Net.Recall
import Mathlib

/-!
A net that predicts by contexts as long as the samples of a language can be repeats samples of the
language, so all its candidates are correct.
-/

namespace LangBench

theorem Net.nat_alphabetSize (net : Net) (p : Prepared) (overrides : Params) :
    (net.mergedParams p overrides).nat Params.alphabetSize = .ok p.lang.alphabetSize := by
  have hget : (net.mergedParams p overrides).get? Params.alphabetSize =
      some (.ofNat p.lang.alphabetSize) := by
    rw [Net.mergedParams, Dict.get?_insert, Dict.get?_insert, if_neg (by decide), if_pos rfl]
  simp only [Params.nat, Params.optionalNat, hget]
  rfl

namespace Markov

variable {m m' : Markov} {samples given : List Sample} {params : Params}

/-- A net that has learnt from some samples, none of which is longer than its contexts, is ignored
or contains the boundary. -/
structure TrainedOn (m : Markov) (samples : List Sample) : Prop where
  order_eq : m.order = m.maxLength
  hasCounted : m.HasCounted samples
  length_le : ∀ x ∈ samples, x.length ≤ m.order
  heeded_eq : m.heeded samples = samples
  boundaryApart : m.BoundaryApart samples

/-- A net that is prepared has the length, the alphabet and the order that it is told, and has
learnt nothing. -/
theorem trainedOn_of_init {maxLength alphabetSize order : Nat}
    (hlength : params.optionalNat Params.maxLength = .ok (some maxLength))
    (halphabet : params.nat Params.alphabetSize = .ok alphabetSize)
    (horder : params.nat orderSpec.name = .ok order) (heq : order = maxLength)
    (h : Succeeds (init params) m () m') :
    m'.TrainedOn [] ∧ m'.order = order ∧ m'.alphabetSize = alphabetSize := by
  obtain rfl := Option.some.inj (Except.ok.inj (hlength.symm.trans (maxLength_of_init h)))
  obtain rfl := Except.ok.inj (halphabet.symm.trans (alphabetSize_of_init h))
  obtain rfl := Except.ok.inj (horder.symm.trans (order_of_init h))
  exact ⟨⟨heq, hasCounted_of_init h, by simp, rfl, by simp [BoundaryApart, heeded]⟩, rfl, rfl⟩

theorem TrainedOn.absorbAll (hm : m.TrainedOn samples) (halphabet : m.alphabetSize < UInt32.size)
    (hgiven : ∀ x ∈ given, x.length ≤ m.order ∧ x.withinAlphabet m.alphabetSize = true)
    (h : Net.markov.absorbAll m given = .ok m') : m'.TrainedOn (samples ++ given) := by
  obtain ⟨contexts, habsorb, hcounted⟩ := hm.hasCounted.absorbAll given
  obtain rfl := Except.ok.inj (habsorb.symm.trans h)
  refine ⟨hm.order_eq, hcounted, ?_, ?_, boundaryApart_of_alphabetSize_lt halphabet _⟩
  · exact List.forall_mem_append.2 ⟨hm.length_le, fun x hx ↦ (hgiven x hx).1⟩
  · have hall : given.filter (·.withinAlphabet m.alphabetSize) = given :=
      List.filter_eq_self.2 fun x hx ↦ (hgiven x hx).2
    exact (List.filter_append ..).trans (congrArg₂ _ hm.heeded_eq hall)

theorem TrainedOn.generate_mem (hm : m.TrainedOn samples) (hne : samples ≠ []) :
    m.generate.1 ∈ samples := by
  obtain ⟨y, hy, heq⟩ := hm.hasCounted.generate_eq_take hm.boundaryApart hm.order_eq
    (by rwa [hm.heeded_eq])
  rw [hm.heeded_eq] at hy
  rwa [heq, ← hm.order_eq, List.take_of_length_le (hm.length_le y hy)]

theorem TrainedOn.candidates_mem (hm : m.TrainedOn samples) (hne : samples ≠ []) {n : Nat}
    {candidates : List Sample} (h : Net.markov.candidates n m = .ok (candidates, m')) :
    ∀ x ∈ candidates, x ∈ samples := by
  refine (Net.candidates_ok (fun m : Markov ↦ m.TrainedOn samples) (· ∈ samples) ?_ hm h).2
  intro m x m' hm hx
  obtain ⟨rfl, rfl⟩ := Prod.mk.inj (Except.ok.inj hx)
  exact ⟨hm.generate_mem hne, hm.order_eq, hm.hasCounted, hm.length_le, hm.heeded_eq,
    hm.boundaryApart⟩

end Markov

namespace Benchmark

/-- A net that predicts by contexts as long as the samples of a language can be repeats samples that
it was trained on, whatever its seed. So all its candidates are correct. -/
theorem markov_repeats_training {b : Benchmark} {lang net : String}
    {langInstance netInstance : Instance} {p : Prepared} {stats : Stats} {bound maxLength : Nat}
    (hlang : b.config.langs.get? lang = some langInstance)
    (hnet : b.config.nets.get? net = some netInstance)
    (hp : b.registry.prepare langInstance.preset langInstance.params = .ok p)
    (hstock : p.backend.Stock) (halphabet : p.lang.alphabetSize < 2 ^ 32)
    (hmarkov : b.registry.nets.get? netInstance.preset = some .markov)
    (hbound : p.params.optionalNat Params.maxLength = .ok (some bound))
    (hlength : (Net.markov.mergedParams p netInstance.params).optionalNat Params.maxLength =
      .ok (some maxLength))
    (hle : bound ≤ maxLength)
    (horder : (Net.markov.mergedParams p netInstance.params).nat Markov.orderSpec.name =
      .ok maxLength)
    (hrun : (b.report lang net).outcome = .ok stats) (hused : 1 ≤ stats.intake.used) :
    stats.correct = stats.testSamples ∧ ∃ training candidates,
      (b.report lang net).trace =
        ⟨some (Net.markov.mergedParams p netInstance.params), some training, some candidates⟩ ∧
      ∀ x ∈ candidates, x ∈ training ∧ p.backend.accepts x = true := by
  obtain ⟨run⟩ := exists_pairRun (succeeds_runPair_iff.2 ⟨hrun, rfl⟩)
  obtain ⟨langInstance', netInstance', p', model, length, maxSamples, testSamples, ready, trained,
    candidates, last, hlang', hnet', hp', hmodel, hlength', -, -, hinit, htrain, hcandidates,
    hstats, htrace⟩ := run
  obtain rfl := Option.some.inj (hlang.symm.trans hlang')
  obtain rfl := Option.some.inj (hnet.symm.trans hnet')
  obtain rfl := Except.ok.inj (hp.symm.trans hp')
  obtain rfl := Option.some.inj (hmarkov.symm.trans hmodel)
  obtain rfl := Except.ok.inj (hbound.symm.trans hlength')
  obtain ⟨hready, hready_order, hready_size⟩ := Markov.trainedOn_of_init hlength
    (Net.nat_alphabetSize .markov p netInstance.params) horder rfl
    (show Succeeds _ _ _ _ from hinit)
  obtain ⟨hall, hused', hstate⟩ := Net.trainOn_ok htrain (hstock.only_generate bound)
  have hgiven : ∀ x ∈ trained.samples,
      x.length ≤ ready.order ∧ x.withinAlphabet ready.alphabetSize = true := by
    intro x hx
    obtain ⟨-, hshort, hwithin⟩ := hall x hx
    rw [hready_order, hready_size]
    exact ⟨Nat.le_trans hshort hle,
      Sample.withinAlphabet_mono (Registry.alphabetSize_le_of_prepare hp) hwithin⟩
  have hlearnt := hready.absorbAll (hready_size ▸ halphabet) hgiven hstate
  rw [List.nil_append] at hlearnt
  have hne : trained.samples ≠ [] := by
    intro hnil
    rw [hstats, Stats.ofCandidates, hused', hnil] at hused
    simp [Intake.empty] at hused
  have hmem := hlearnt.candidates_mem hne hcandidates
  refine ⟨?_, trained.samples, candidates, htrace, fun x hx ↦ ⟨hmem x hx, (hall x (hmem x hx)).1⟩⟩
  rw [hstats, Stats.ofCandidates, List.countP_eq_length]
  exact fun x hx ↦ (hall x (hmem x hx)).1

section Evens

def evensLang : Instance := ⟨"parity_fsm", .ofList [("max_length", .ofNat 2),
  ("max_samples", .ofNat 4), ("test_samples", .ofNat 2)]⟩

/-- Strings of at most two symbols with an even number of ones, against contexts as long. -/
def evens : Benchmark :=
  ⟨.builtin, ⟨.ofList [("evens", evensLang)], .ofList [("full", ⟨"markov", .empty⟩)]⟩⟩

/-- The automaton that tells whether the number of ones is even. -/
def evensAutomaton : Automaton :=
  ⟨#[⟨[(0, [0]), (1, [1])], true⟩, ⟨[(0, [1]), (1, [0])], false⟩], 0, 2⟩

def evensPrepared : Prepared :=
  ⟨.parityFsm, Language.parityFsm.mergedParams evensLang.params, evensAutomaton.backend⟩

theorem prepare_evens :
    evens.registry.prepare evensLang.preset evensLang.params = .ok evensPrepared :=
  Registry.prepare_eq_ok.2 ⟨.parityFsm, by cbv,
    Language.prepare_eq_ok.2 ⟨_, rfl, rfl, Nat.le_refl 2, rfl⟩⟩

theorem params_evens : evensPrepared.params = .ofList [("epochs", .ofNat 10),
    ("max_length", .ofNat 2), ("max_samples", .ofNat 4), ("test_samples", .ofNat 2)] := by
  have hlayers : evensPrepared.params =
    .layered [.globalDefaults, .ofSpecs [], evensLang.params] := rfl
  rw [hlayers]
  cbv

theorem maxLength_evens : evensPrepared.params.optionalNat Params.maxLength = .ok (some 2) := by
  rw [params_evens]
  cbv

theorem netParams_evens : Net.markov.mergedParams evensPrepared .empty = .ofList [
    ("epochs", .ofNat 10), ("max_length", .ofNat 2), ("max_samples", .ofNat 4),
    ("test_samples", .ofNat 2), ("order", .ofNat 2), ("seed", .ofNat 42),
    ("alphabet_size", .ofNat 2), ("shape", Shape.sequence.toJson)] := by
  rw [Net.mergedParams, params_evens, show evensPrepared.lang.alphabetSize = 2 from rfl,
    show evensPrepared.lang.shape = .sequence from rfl]
  cbv

/-- There are four such strings, and the net is trained on all. -/
theorem trainOn_evens : ∃ t last,
    Net.markov.trainOn (pull Enumeration.step stepLimit)
      ⟨.walk (evensAutomaton.walk (some 2)), .sequence, some 2, 4, .empty⟩
      (⟨2, 2, 2, none, .ofSeed 42⟩ : Markov) = .ok t ∧
    t.feed.intake.used = 4 ∧ Net.markov.candidates 2 t.state = .ok ([[1, 1], [1, 1]], last) :=
  ⟨_, _, (Net.trainOn_go_sample rfl (by cbv) (by cbv)).trans <|
    (Net.trainOn_go_sample rfl (by cbv) (by cbv)).trans <|
    (Net.trainOn_go_sample rfl (by cbv) (by cbv)).trans <|
    (Net.trainOn_go_sample rfl (by cbv) (by cbv)).trans <|
    Net.trainOn_go_ended rfl (by cbv), by cbv, by cbv⟩

theorem report_evens : ∃ stats, (evens.report "evens" "full").outcome = .ok stats ∧
    stats.intake.used = 4 ∧ stats.testSamples = 2 := by
  obtain ⟨t, last, htrain, hused, hcandidates⟩ := trainOn_evens
  obtain ⟨stats, hstats⟩ : ∃ stats, stats = Stats.ofCandidates t.feed.intake
    evensPrepared.backend.accepts [[1, 1], [1, 1]] := ⟨_, rfl⟩
  have run : PairRun evens "evens" "full" stats _ := {
    langInstance := evensLang
    netInstance := ⟨"markov", .empty⟩
    prepared := evensPrepared
    model := .markov
    maxLength := some 2
    maxSamples := 4
    testSamples := 2
    ready := (⟨2, 2, 2, none, .ofSeed 42⟩ : Markov)
    trained := t
    candidates := [[1, 1], [1, 1]]
    last := last
    get_lang := by cbv
    get_net := by cbv
    prepare_eq := prepare_evens
    get_model := by cbv
    maxLength_eq := maxLength_evens
    maxSamples_eq := by rw [params_evens]; cbv
    testSamples_eq := by rw [params_evens]; cbv
    init_eq := by rw [netParams_evens]; cbv
    trainOn_eq := htrain
    candidates_eq := hcandidates
    stats_eq := hstats
    trace_eq := rfl }
  refine ⟨stats, (succeeds_runPair_iff.1 run.succeeds).1, ?_, ?_⟩
  · rw [hstats, Stats.ofCandidates, hused]
  · rw [hstats]
    rfl

theorem markov_repeats_training_evens :
    ∃ stats, (evens.report "evens" "full").outcome = .ok stats ∧
      stats.intake.used = 4 ∧ stats.testSamples = 2 ∧ stats.correct = stats.testSamples ∧
      ∃ training candidates,
        (evens.report "evens" "full").trace =
          ⟨some (Net.markov.mergedParams evensPrepared .empty), some training, some candidates⟩ ∧
        ∀ x ∈ candidates, x ∈ training ∧ evensPrepared.backend.accepts x = true := by
  obtain ⟨stats, hrun, hused, htest⟩ := report_evens
  have hlang : evens.config.langs.get? "evens" = some evensLang := by cbv
  have hnet : evens.config.nets.get? "full" = some ⟨"markov", .empty⟩ := by cbv
  have hmarkov : evens.registry.nets.get? "markov" = some .markov := by cbv
  have hstock := Registry.stock_builtin.backend prepare_evens
  have halphabet : evensPrepared.lang.alphabetSize < 2 ^ 32 := by
    rw [show evensPrepared.lang.alphabetSize = 2 from rfl]
    decide
  have hlength : (Net.markov.mergedParams evensPrepared .empty).optionalNat Params.maxLength =
      .ok (some 2) := by
    rw [netParams_evens]
    cbv
  have horder : (Net.markov.mergedParams evensPrepared .empty).nat Markov.orderSpec.name =
      .ok 2 := by
    rw [netParams_evens]
    cbv
  have hrepeats := markov_repeats_training hlang hnet prepare_evens hstock halphabet hmarkov
    maxLength_evens hlength (Nat.le_refl 2) horder hrun (by omega)
  exact ⟨stats, hrun, hused, htest, hrepeats⟩

end Evens

end Benchmark

end LangBench
