import LangBench.Proofs.Benchmark.Pairs

/-!
The symbols of a language stay below the size of its alphabet, from its backend to the net that is
trained on it.

That a net ignores no sample of those that it is given is told by a net that stops where it would:
if that comes to the same, there is no such sample.
-/

namespace LangBench

open Benchmark

namespace Net

variable {net : Net} {absorb : Sample → net.State → Except NetFault net.State} {σ : Type}

def withAbsorb (net : Net) (absorb : Sample → net.State → Except NetFault net.State) : Net :=
  { net with absorb := absorb }

def Trained.withAbsorb (absorb : Sample → net.State → Except NetFault net.State)
    (t : net.Trained σ) : (net.withAbsorb absorb).Trained σ :=
  ⟨t.state, t.feed, t.samples⟩

/-- The two ways come to the same for samples of a sort, in states of a sort that the net stays
in. -/
structure Unmoved (net : Net) (absorb : Sample → net.State → Except NetFault net.State)
    (P : Sample → Prop) (I : net.State → Prop) : Prop where
  absorb_eq : ∀ x s, P x → I s → absorb x s = net.absorb x s
  kept : ∀ x s s', I s → net.absorb x s = .ok s' → I s'

variable {P : Sample → Prop} {I : net.State → Prop}

theorem Unmoved.trainOn_go (h : net.Unmoved absorb P I) {step : σ → Step σ} {budget : Nat}
    (absorbed : Nat) {f : Feed σ} (s : net.State) (given : List Sample)
    (hf : Only step P f.source) (hs : I s) :
    trainOn.go (net.withAbsorb absorb) (pull step budget) absorbed f s given =
      (trainOn.go net (pull step budget) absorbed f s given).map (Trained.withAbsorb absorb) := by
  fun_induction trainOn.go net (pull step budget) absorbed f s given with
  | case1 absorbed f s given hmore f' hnext => exact trainOn_go_ended hmore hnext
  | case2 absorbed f s given hmore hnext => exact trainOn_go_stalled hmore hnext
  | case3 absorbed f s given hmore x f' hnext _ s' habsorb ih =>
    obtain ⟨pulled, hfed, hfilter⟩ := Feed.exists_fed_of_sample hnext
    obtain ⟨hall, hrest⟩ := hf.of_steps hfed.run
    have hx : P x := hall x (List.mem_of_mem_filter (hfilter ▸ List.mem_singleton_self x))
    have hsame : (net.withAbsorb absorb).absorb x s = .ok s' :=
      (h.absorb_eq x s hx hs).trans habsorb
    have hgo : trainOn.go (net.withAbsorb absorb) (pull step budget) absorbed f s given = _ :=
      trainOn_go_sample hmore hnext hsame
    exact hgo.trans (ih hrest (h.kept x s s' hs habsorb))
  | case4 absorbed f s given hmore x f' hnext _ fault habsorb =>
    obtain ⟨pulled, hfed, hfilter⟩ := Feed.exists_fed_of_sample hnext
    have hx : P x :=
      (hf.of_steps hfed.run).1 x (List.mem_of_mem_filter (hfilter ▸ List.mem_singleton_self x))
    have hsame : (net.withAbsorb absorb).absorb x s = .error fault :=
      (h.absorb_eq x s hx hs).trans habsorb
    exact trainOn_go_stopped hmore hnext hsame
  | case5 absorbed f s given hmore => exact trainOn_go_enough hmore

theorem candidates_withAbsorb (n : Nat) (s : net.State) :
    (net.withAbsorb absorb).candidates n s = net.candidates n s := by
  suffices hgo : ∀ n s produced, candidates.go (net.withAbsorb absorb) n s produced =
      candidates.go net n s produced from hgo n s []
  intro n
  induction n with
  | zero => exact fun _ _ ↦ rfl
  | succ n ih =>
    intro s produced
    exact congrArg (net.generate s).bind (funext fun x ↦ ih x.2 (x.1 :: produced))

theorem Unmoved.evaluate (h : net.Unmoved absorb P I) {p : Prepared} {s : net.State}
    (hp : ∀ maxLength, Only Enumeration.step P (p.backend.generate maxLength)) (hs : I s) :
    (net.withAbsorb absorb).evaluate p s = net.evaluate p s := by
  refine bind_congr fun maxLength ↦ bind_congr fun maxSamples ↦ bind_congr fun testSamples ↦ ?_
  have htrain : (net.withAbsorb absorb).trainOn (Enumeration.next stepLimit)
      ⟨p.backend.generate maxLength, p.backend.shape, maxLength, maxSamples, .empty⟩ s = _ :=
    h.trainOn_go 0 s [] (hp maxLength) hs
  dsimp only
  rw [htrain, liftExcept_map_bind]
  refine bind_congr fun trained ↦ bind_congr fun _ ↦ ?_
  have hcandidates : (net.withAbsorb absorb).candidates testSamples
      (trained.withAbsorb absorb).state = net.candidates testSamples trained.state :=
    candidates_withAbsorb testSamples trained.state
  rw [hcandidates]
  rfl

end Net

namespace Registry

variable {r : Registry} {i j : Instance} {l : Language} {p : Prepared}

end Registry

end LangBench
