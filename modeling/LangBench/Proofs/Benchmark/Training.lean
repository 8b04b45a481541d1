import LangBench.Benchmark.Pair
import LangBench.Proofs.Benchmark.Books
import LangBench.Proofs.Net.Calls

/-!
What a net is trained on comes from the source of its feed.
-/

namespace LangBench

universe u

/-- Whatever an enumeration hands out has a property. -/
def Only {σ : Type u} (step : σ → Step σ) (P : Sample → Prop) (s : σ) : Prop :=
  ∀ x, HandsOut step s x → P x

section Source

variable {σ : Type u} {step : σ → Step σ} {P : Sample → Prop} {s t : σ} {out : List Sample}

theorem Only.of_steps (h : Only step P s) (hs : Steps step s out t) :
    (∀ x ∈ out, P x) ∧ Only step P t := by
  refine ⟨fun x hx ↦ h x (handsOut_iff.2 ⟨out, t, hs, hx⟩), fun x hx ↦ ?_⟩
  obtain ⟨out', u, hu, hx⟩ := handsOut_iff.1 hx
  exact h x (handsOut_iff.2 ⟨_, u, hs.trans hu, List.mem_append_right _ hx⟩)

end Source

namespace Net

variable {σ : Type} {step : σ → Step σ} {P : Sample → Prop} {net : Net} {budget : Nat}

section Go

variable {pull : σ → Pull σ} {absorbed : Nat} {f f' : Feed σ} {s s' : net.State}
  {given : List Sample} {x : Sample}

theorem trainOn_go_sample (hmore : net.wantsMore absorbed = true)
    (hnext : f.next pull = .sample x f') (habsorb : net.absorb x s = .ok s') :
    trainOn.go net pull absorbed f s given =
      trainOn.go net pull (absorbed + 1) f' s' (x :: given) := by
  rw [trainOn.go, if_pos hmore]
  split
  · next h => simp [hnext] at h
  · next h => simp [hnext] at h
  · next h =>
    obtain ⟨rfl, rfl⟩ := Supply.sample.inj (hnext.symm.trans h)
    rw [habsorb]

theorem trainOn_go_ended (hmore : net.wantsMore absorbed = true) (hnext : f.next pull = .ended f') :
    trainOn.go net pull absorbed f s given = .ok ⟨s, f', given.reverse⟩ := by
  rw [trainOn.go, if_pos hmore]
  split
  · next h =>
    obtain rfl := Supply.ended.inj (hnext.symm.trans h)
    rfl
  · next h => simp [hnext] at h
  · next h => simp [hnext] at h

theorem trainOn_go_stalled (hmore : net.wantsMore absorbed = true) (hnext : f.next pull = .stalled) :
    trainOn.go net pull absorbed f s given = .error .stalled := by
  rw [trainOn.go, if_pos hmore]
  split
  · next h => simp [hnext] at h
  · rfl
  · next h => simp [hnext] at h

theorem trainOn_go_stopped {fault : NetFault} (hmore : net.wantsMore absorbed = true)
    (hnext : f.next pull = .sample x f') (habsorb : net.absorb x s = .error fault) :
    trainOn.go net pull absorbed f s given = .error (.netStopped fault) := by
  rw [trainOn.go, if_pos hmore]
  split
  · next h => simp [hnext] at h
  · next h => simp [hnext] at h
  · next h =>
    obtain ⟨rfl, rfl⟩ := Supply.sample.inj (hnext.symm.trans h)
    rw [habsorb]

theorem trainOn_go_enough (hmore : ¬ net.wantsMore absorbed = true) :
    trainOn.go net pull absorbed f s given = .ok ⟨s, f, given.reverse⟩ := by
  rw [trainOn.go, if_neg hmore]

end Go

/-- Training feeds a net what passes of the samples that are pulled. A net that always wants more
takes all that there is. -/
theorem trainOn_go_fed {absorbed : Nat} {f : Feed σ} {s : net.State} {given : List Sample}
    {t : Trained net σ} (h : trainOn.go net (pull step budget) absorbed f s given = .ok t) :
    ∃ pulled, f.Fed step pulled t.feed ∧ t.samples = given.reverse ++ pulled.filter f.passes ∧
      net.absorbAll s (pulled.filter f.passes) = .ok t.state ∧
      ((∀ n, net.wantsMore n = true) → t.feed.Spent step) := by
  fun_induction trainOn.go net (pull step budget) absorbed f s given with
  | case1 absorbed f s given _ f' hnext =>
    cases h
    obtain ⟨pulled, hfed, hfilter, hspent⟩ := Feed.exists_fed_of_ended hnext
    exact ⟨pulled, hfed, by simp [hfilter], by rw [hfilter]; rfl, fun _ ↦ hspent⟩
  | case2 => simp at h
  | case3 absorbed f s given _ x f' hnext _ s' habsorb ih =>
    obtain ⟨first, hfed, hfirst⟩ := Feed.exists_fed_of_sample hnext
    obtain ⟨pulled, hfed', hsamples, hstate, hspent⟩ := ih h
    rw [hfed.passes_eq] at hsamples hstate
    have hfilter : (first ++ pulled).filter f.passes = x :: pulled.filter f.passes := by
      rw [List.filter_append, hfirst, List.singleton_append]
    refine ⟨first ++ pulled, hfed.trans hfed', ?_, ?_, hspent⟩
    · rw [hsamples, hfilter, List.reverse_cons, List.append_assoc, List.singleton_append]
    · rw [hfilter, absorbAll, List.foldlM_cons, habsorb]
      exact hstate
  | case4 => simp at h
  | case5 absorbed f s given hmore =>
    cases h
    exact ⟨[], .refl f, by simp, rfl, fun hall ↦ absurd (hall absorbed) hmore⟩

theorem trainOn_fed {f : Feed σ} {s : net.State} {t : Trained net σ}
    (h : net.trainOn (pull step budget) f s = .ok t) :
    ∃ pulled, f.Fed step pulled t.feed ∧ t.samples = pulled.filter f.passes ∧
      net.absorbAll s t.samples = .ok t.state ∧
      ((∀ n, net.wantsMore n = true) → t.feed.Spent step) := by
  obtain ⟨pulled, hfed, hsamples, hstate, hspent⟩ := trainOn_go_fed h
  rw [List.reverse_nil, List.nil_append] at hsamples
  exact ⟨pulled, hfed, hsamples, hsamples ▸ hstate, hspent⟩

/-- A net is trained on samples of the source, and as many as the books tell. -/
theorem trainOn_ok {f : Feed σ} {s : net.State} {t : Trained net σ}
    (h : net.trainOn (pull step budget) f s = .ok t) (hs : Only step P f.source) :
    (∀ x ∈ t.samples, P x) ∧ t.feed.intake.used = f.intake.used + t.samples.length ∧
      net.absorbAll s t.samples = .ok t.state := by
  obtain ⟨pulled, hfed, hsamples, hstate, -⟩ := trainOn_fed h
  refine ⟨fun x hx ↦ ?_, ?_, hstate⟩
  · rw [hsamples] at hx
    exact (hs.of_steps hfed.run).1 x (List.mem_filter.1 hx).1
  · rw [hfed.intake_eq, Feed.used_foldl_enter, hsamples]

end Net

end LangBench
