import LangBench.Net.Presets
import LangBench.Proofs.Outcome
import LangBench.Proofs.Random.Below

/-!
The candidates of a net: as many as it is asked for, and none longer than the bound that the net has
been prepared with.
-/

namespace LangBench

namespace Net

variable {net : Net} {n : Nat} {params : Params} {s s' : net.State} {candidates : List Sample}

/-- What every sample has that is produced in a state of an invariant, all candidates have. -/
theorem candidates_ok (I : net.State → Prop) (P : Sample → Prop)
    (hgenerate : ∀ s x s', I s → net.generate s = .ok (x, s') → P x ∧ I s') (hs : I s)
    (h : net.candidates n s = .ok (candidates, s')) :
    candidates.length = n ∧ ∀ x ∈ candidates, P x := by
  have hgo (n : Nat) (s : net.State) (hs : I s) (produced : List Sample)
      (h : Net.candidates.go net n s produced = .ok (candidates, s')) :
      ∃ more, candidates = produced.reverse ++ more ∧ more.length = n ∧ ∀ x ∈ more, P x := by
    induction n generalizing s produced with
    | zero =>
      cases h
      exact ⟨[], by simp, rfl, by simp⟩
    | succ n ih =>
      obtain ⟨⟨x, t⟩, hx, hrest⟩ := bind_eq_ok.1 h
      obtain ⟨hP, ht⟩ := hgenerate s x t hs hx
      obtain ⟨more, rfl, rfl, hmore⟩ := ih t ht (x :: produced) hrest
      exact ⟨x :: more, by simp, rfl, List.forall_mem_cons.2 ⟨hP, hmore⟩⟩
  obtain ⟨more, rfl, hlength, hmore⟩ := hgo n s hs [] h
  exact ⟨hlength, hmore⟩

theorem requiredMaxLength_eq_ok {name : String} :
    requiredMaxLength name params = .ok n ↔ params.optionalNat Params.maxLength = .ok (some n) := by
  unfold requiredMaxLength
  rcases params.optionalNat Params.maxLength with e | (_ | m)
  · simp [bind, Except.bind]
  · simp [bind, Except.bind, throw_ne_ok]
  · simp [bind, Except.bind, pure, Except.pure]

theorem requiredAlphabetSize_eq_ok (h : requiredAlphabetSize params = .ok n) :
    params.nat Params.alphabetSize = .ok n := by
  obtain ⟨m, hm, h⟩ := bind_eq_ok.1 h
  cases m with
  | zero => exact absurd h throw_ne_ok
  | succ m => exact Except.ok.inj h ▸ hm

/-- A net that takes all samples that it is given, and that never produces a longer one than it was
told when it was prepared. -/
structure KeepsLength (net : Net) (bound : net.State → Nat) : Prop where
  wantsMore : ∀ absorbed, net.wantsMore absorbed = true
  init : ∀ params s s', net.init params s = (.ok (), s') →
    params.optionalNat Params.maxLength = .ok (some (bound s'))
  absorb : ∀ x s s', net.absorb x s = .ok s' → bound s' = bound s
  generate : ∀ s x s', net.generate s = .ok (x, s') → x.length ≤ bound s ∧ bound s' = bound s

end Net

namespace Markov

variable {m : Markov} {history : List Symbol}

theorem drawSample_succ {n : Nat} {c : Symbol} {s s' : WordStream}
    (h : (m.draw history).run s = (c, s')) :
    ((m.drawSample history (n + 1)).run s).1 =
      if c = m.boundary then [] else c :: ((m.drawSample (c :: history) n).run s').1 := by
  have hrun : (m.drawSample history (n + 1)).run s =
      (if c = m.boundary then pure []
        else (c :: ·) <$> m.drawSample (c :: history) n : Draw Sample).run s' := by
    rw [drawSample, StateT.run_bind, h]
    rfl
  rw [hrun]
  split <;> rfl

theorem length_drawSample_le (m : Markov) (history : List Symbol) (n : Nat) (s : WordStream) :
    ((m.drawSample history n).run s).1.length ≤ n := by
  induction n generalizing history s with
  | zero => exact Nat.le_refl 0
  | succ n ih =>
    cases hdraw : (m.draw history).run s with
    | mk c s' =>
      rw [drawSample_succ hdraw]
      split
      · exact Nat.zero_le _
      · exact Nat.succ_le_succ (ih _ s')

theorem maxLength_of_init {m' : Markov} {params : Params} (h : Succeeds (init params) m () m') :
    params.optionalNat Params.maxLength = .ok (some m'.maxLength) := by
  unfold init at h
  simp only [succeeds_bind, succeeds_liftExcept, succeeds_modify] at h
  obtain ⟨maxLength, _, ⟨hlength, rfl⟩, _, _, rfl, _, _, ⟨-, rfl⟩, _, _, rfl, _, _, ⟨-, rfl⟩, _, _,
    rfl, _, _, ⟨-, rfl⟩, rfl⟩ := h
  exact Net.requiredMaxLength_eq_ok.1 hlength

theorem alphabetSize_of_init {m' : Markov} (h : Succeeds (init params) m () m') :
    params.nat Params.alphabetSize = .ok m'.alphabetSize := by
  unfold init at h
  simp only [succeeds_bind, succeeds_liftExcept, succeeds_modify] at h
  obtain ⟨_, _, -, _, _, -, alphabetSize, _, ⟨hsize, -⟩, _, _, rfl, _, _, ⟨-, rfl⟩, _, _, rfl, _, _,
    ⟨-, rfl⟩, rfl⟩ := h
  exact Net.requiredAlphabetSize_eq_ok hsize

theorem order_of_init {m' : Markov} {params : Params} (h : Succeeds (init params) m () m') :
    params.nat orderSpec.name = .ok m'.order := by
  unfold init at h
  simp only [succeeds_bind, succeeds_liftExcept, succeeds_modify] at h
  obtain ⟨_, _, -, _, _, -, _, _, -, _, _, -, order, _, ⟨horder, -⟩, _, _, rfl, _, _, ⟨-, rfl⟩,
    rfl⟩ := h
  obtain ⟨order', hread, hrest⟩ := bind_eq_ok.1 horder
  split at hrest
  · exact absurd hrest throw_ne_ok
  · obtain rfl := Except.ok.inj hrest
    exact hread

theorem maxLength_absorb {m' : Markov} {x : Sample} (h : m.absorb x = .ok m') :
    m'.maxLength = m.maxLength := by
  unfold absorb at h
  split at h
  · obtain ⟨contexts, -, rfl⟩ := map_eq_ok.1 h
    rfl
  · cases h
    rfl

theorem keepsLength : Net.markov.KeepsLength Markov.maxLength where
  wantsMore _ := rfl
  init _ _ _ h := maxLength_of_init h
  absorb _ _ _ h := maxLength_absorb h
  generate m x m' h := by
    obtain ⟨rfl, rfl⟩ := Prod.mk.inj (Except.ok.inj h)
    exact ⟨length_drawSample_le m _ _ _, rfl⟩

end Markov

namespace Uniform

theorem length_drawSymbols (bound n : Nat) (s : WordStream) :
    ((drawSymbols bound n).run s).1.length = n := by
  induction n generalizing s with
  | zero => rfl
  | succ n ih => exact congrArg Nat.succ (ih _)

theorem maxLength_of_init {u u' : Uniform} {params : Params}
    (h : Succeeds (init params) u () u') :
    params.optionalNat Params.maxLength = .ok (some u'.maxLength) := by
  unfold init at h
  simp only [succeeds_bind, succeeds_liftExcept, succeeds_modify] at h
  obtain ⟨maxLength, _, ⟨hlength, rfl⟩, _, _, rfl, _, _, ⟨-, rfl⟩, _, _, rfl, _, _, ⟨-, rfl⟩,
    rfl⟩ := h
  exact Net.requiredMaxLength_eq_ok.1 hlength

theorem length_le_of_generate {u u' : Uniform} {x : Sample} (h : u.generate = .ok (x, u')) :
    x.length ≤ u.maxLength ∧ u'.maxLength = u.maxLength := by
  have hle := Draw.upTo_le u.maxLength u.stream
  unfold generate at h
  rcases hupTo : (Draw.upTo u.maxLength).run u.stream with ⟨length, stream⟩
  rw [hupTo] at hle
  simp only [hupTo] at h
  split at h
  · simp at h
  · obtain ⟨rfl, rfl⟩ := Prod.mk.inj (Except.ok.inj h)
    have hlength := length_drawSymbols (u.alphabetSize % UInt32.size) length stream
    exact ⟨Nat.le_trans (Nat.le_of_eq hlength) hle, rfl⟩

theorem keepsLength : Net.uniform.KeepsLength Uniform.maxLength where
  wantsMore _ := rfl
  init _ _ _ h := maxLength_of_init h
  absorb _ _ _ h := congrArg Uniform.maxLength (Except.ok.inj h).symm
  generate _ _ _ h := length_le_of_generate h

end Uniform

end LangBench
