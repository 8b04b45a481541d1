import LangBench.Enumeration.Basic

/-!
What enumerations hand out in finitely many steps.

`HandsOut` and `Lists` speak of the samples that are pulled; `Steps` relates the states between
them, and is what proofs go by.
-/

namespace LangBench

universe u v

/-- Finitely many steps, with the samples that they hand out. -/
inductive Steps {σ : Type u} (step : σ → Step σ) : σ → List Sample → σ → Prop
  | zero (s : σ) : Steps step s [] s
  | skip {s t u : σ} {out : List Sample} :
      step s = .skip t → Steps step t out u → Steps step s out u
  | emit {s t u : σ} {x : Sample} {out : List Sample} :
      step s = .emit x t → Steps step t out u → Steps step s (x :: out) u

/-- A sample comes among the first ones that are pulled, if only there is budget enough. -/
def HandsOut {σ : Type u} (step : σ → Step σ) (s : σ) (x : Sample) : Prop :=
  ∃ budget n, x ∈ (take step budget n s).samples

/-- The enumeration hands out these samples and no others, and comes to its end, whatever budget
large enough it is given. -/
def Lists {σ : Type u} (step : σ → Step σ) (s : σ) (samples : List Sample) : Prop :=
  ∃ budget, ∀ b, budget ≤ b → ∀ n, samples.length < n → take step b n s = ⟨samples, true, false⟩

namespace Steps

variable {σ : Type u} {τ : Type v} {step : σ → Step σ} {s t u : σ} {x : Sample}
  {out out' : List Sample}

theorem one_skip (h : step s = .skip t) : Steps step s [] t := .skip h (.zero t)

theorem one_emit (h : step s = .emit x t) : Steps step s [x] t := .emit h (.zero t)

theorem trans (h : Steps step s out t) (h' : Steps step t out' u) :
    Steps step s (out ++ out') u := by
  induction h with
  | zero => exact h'
  | skip hs _ ih => exact .skip hs (ih h')
  | emit hs _ ih => exact .emit hs (ih h')

theorem invariant (I : σ → Prop) (hskip : ∀ a b, I a → step a = .skip b → I b)
    (hemit : ∀ a x b, I a → step a = .emit x b → I b) (h : Steps step s out t) (hs : I s) : I t := by
  induction h with
  | zero => exact hs
  | skip h _ ih => exact ih (hskip _ _ hs h)
  | emit h _ ih => exact ih (hemit _ _ _ hs h)

/-- What every step hands out from a state of an invariant, a run from there hands out. -/
theorem forall_mem (I : σ → Prop) (P : Sample → Prop)
    (hskip : ∀ a b, I a → step a = .skip b → I b)
    (hemit : ∀ a x b, I a → step a = .emit x b → P x ∧ I b) (h : Steps step s out t) (hs : I s) :
    ∀ x ∈ out, P x := by
  induction h with
  | zero => simp
  | skip h _ ih => exact ih (hskip _ _ hs h)
  | emit h _ ih =>
    obtain ⟨hx, ht⟩ := hemit _ _ _ hs h
    exact List.forall_mem_cons.2 ⟨hx, ih ht⟩

/-- A property of what has been handed out and the state, which a step keeps wherever the run has come
to, holds at the end of the run. -/
theorem invariant_so_far (I : List Sample → σ → Prop) (hzero : I [] s)
    (hskip : ∀ out a b, Steps step s out a → I out a → step a = .skip b → I out b)
    (hemit : ∀ out a x b, Steps step s out a → I out a → step a = .emit x b → I (out ++ [x]) b)
    (h : Steps step s out t) : I out t := by
  suffices hall : ∀ {before u}, Steps step s before u → I before u → Steps step u out t →
      I (before ++ out) t from hall (.zero s) hzero h
  intro before u hbefore hu hrest
  clear h
  induction hrest generalizing before with
  | zero => rwa [List.append_nil]
  | skip hs _ ih =>
    have hnext := hbefore.trans (.one_skip hs)
    rw [List.append_nil] at hnext
    exact ih hnext (hskip _ _ _ hbefore hu hs)
  | @emit _ _ _ x out hs _ ih =>
    have hrest := ih (hbefore.trans (.one_emit hs)) (hemit _ _ _ _ hbefore hu hs)
    rwa [List.append_assoc] at hrest

theorem of_map {step' : τ → Step τ} (f : σ → τ) (hstep : ∀ a, step' (f a) = (step a).map f)
    {r : τ} (h : Steps step' (f s) out r) : ∃ t, r = f t ∧ Steps step s out t := by
  generalize hq : f s = q at h
  induction h generalizing s with
  | zero => exact ⟨s, hq.symm, .zero s⟩
  | skip hs _ ih =>
    subst hq
    rw [hstep] at hs
    cases hsource : step s with
    | skip u =>
      rw [hsource, Step.map, Step.skip.injEq] at hs
      obtain ⟨t, ht, hsteps⟩ := ih hs
      exact ⟨t, ht, .skip hsource hsteps⟩
    | emit x u => simp [hsource, Step.map] at hs
    | done => simp [hsource, Step.map] at hs
  | emit hs _ ih =>
    subst hq
    rw [hstep] at hs
    cases hsource : step s with
    | emit x u =>
      rw [hsource, Step.map, Step.emit.injEq] at hs
      obtain ⟨t, ht, hsteps⟩ := ih hs.2
      exact ⟨t, ht, hs.1 ▸ .emit hsource hsteps⟩
    | skip u => simp [hsource, Step.map] at hs
    | done => simp [hsource, Step.map] at hs

/-- Two runs go the same way for as long as both go on. -/
theorem comparable (h : Steps step s out t) (h' : Steps step s out' u) :
    (∃ more, out' = out ++ more ∧ Steps step t more u) ∨
      ∃ more, out = out' ++ more ∧ Steps step u more t := by
  induction h generalizing out' with
  | zero => exact .inl ⟨out', rfl, h'⟩
  | skip hs h ih =>
    cases h' with
    | zero => exact .inr ⟨_, rfl, .skip hs h⟩
    | skip hs' h' =>
      obtain rfl := Step.skip.inj (hs.symm.trans hs')
      exact ih h'
    | emit hs' _ => simp [hs] at hs'
  | emit hs h ih =>
    cases h' with
    | zero => exact .inr ⟨_, rfl, .emit hs h⟩
    | skip hs' _ => simp [hs] at hs'
    | emit hs' h' =>
      obtain ⟨rfl, rfl⟩ := Step.emit.inj (hs.symm.trans hs')
      obtain ⟨more, rfl, hm⟩ | ⟨more, rfl, hm⟩ := ih h'
      · exact .inl ⟨more, rfl, hm⟩
      · exact .inr ⟨more, rfl, hm⟩

theorem of_done (hs : step s = .done) (h : Steps step s out t) : out = [] ∧ t = s := by
  cases h with
  | zero => exact ⟨rfl, rfl⟩
  | skip h _ => simp [hs] at h
  | emit h _ => simp [hs] at h

/-- A run from a state that lists its samples goes no further than they do. -/
theorem prefix_of_done (h : Steps step s out t) (ht : step t = .done)
    (h' : Steps step s out' u) : ∃ more, out = out' ++ more ∧ Steps step u more t := by
  obtain ⟨more, rfl, hm⟩ | hm := h.comparable h'
  · obtain ⟨rfl, rfl⟩ := of_done ht hm
    exact ⟨[], by simp, .zero _⟩
  · exact hm

end Steps

section Pull

variable {σ : Type u} {step : σ → Step σ} {s t : σ} {x : Sample} {out : List Sample}

theorem steps_of_pull {budget : Nat} (h : pull step budget s = .sample x t) :
    Steps step s [x] t := by
  induction budget generalizing s with
  | zero => simp [pull] at h
  | succ budget ih =>
    unfold pull at h
    split at h
    · next hs =>
      cases h
      exact .one_emit hs
    · next hs => exact .skip hs (ih h)
    · simp at h

theorem steps_of_pull_exhausted {budget : Nat} (h : pull step budget s = .exhausted) :
    ∃ t, Steps step s [] t ∧ step t = .done := by
  induction budget generalizing s with
  | zero => simp [pull] at h
  | succ budget ih =>
    unfold pull at h
    split at h
    · simp at h
    · next hs =>
      obtain ⟨t, ht, hd⟩ := ih h
      exact ⟨t, .skip hs ht, hd⟩
    · next hs => exact ⟨s, .zero s, hs⟩

theorem exists_pull_sample (h : Steps step s (x :: out) t) :
    ∃ budget u, (∀ b, budget ≤ b → pull step b s = .sample x u) ∧ Steps step u out t := by
  generalize hl : x :: out = l at h
  induction h with
  | zero => simp at hl
  | skip hs _ ih =>
    obtain ⟨budget, u, hp, hu⟩ := ih hl
    refine ⟨budget + 1, u, fun b hb ↦ ?_, hu⟩
    obtain ⟨b, rfl⟩ : ∃ c, b = c + 1 := ⟨b - 1, by omega⟩
    simpa only [pull, hs] using hp b (by omega)
  | emit hs h _ =>
    cases hl
    refine ⟨1, _, fun b hb ↦ ?_, h⟩
    obtain ⟨b, rfl⟩ : ∃ c, b = c + 1 := ⟨b - 1, by omega⟩
    simp only [pull, hs]

theorem exists_pull_exhausted (h : Steps step s [] t) (ht : step t = .done) :
    ∃ budget, ∀ b, budget ≤ b → pull step b s = .exhausted := by
  generalize hl : ([] : List Sample) = l at h
  induction h with
  | zero =>
    refine ⟨1, fun b hb ↦ ?_⟩
    obtain ⟨b, rfl⟩ : ∃ c, b = c + 1 := ⟨b - 1, by omega⟩
    simp only [pull, ht]
  | skip hs _ ih =>
    obtain ⟨budget, hp⟩ := ih ht hl
    refine ⟨budget + 1, fun b hb ↦ ?_⟩
    obtain ⟨b, rfl⟩ : ∃ c, b = c + 1 := ⟨b - 1, by omega⟩
    simpa only [pull, hs] using hp b (by omega)
  | emit => simp at hl

/-- The first samples when some have been pulled before. -/
theorem take_go_eq (budget n : Nat) (s : σ) (pulled : List Sample) :
    take.go step budget n s pulled =
      { take step budget n s with samples := pulled.reverse ++ (take step budget n s).samples } := by
  induction n generalizing s pulled with
  | zero => simp [take, take.go]
  | succ n ih =>
    simp only [take, take.go]
    cases pull step budget s with
    | sample x next => simp [ih next (x :: pulled), ih next [x]]
    | exhausted => simp
    | stalled => simp

theorem take_succ (budget n : Nat) (s : σ) :
    take step budget (n + 1) s =
      match pull step budget s with
      | .sample x next =>
        { take step budget n next with samples := x :: (take step budget n next).samples }
      | .exhausted => ⟨[], true, false⟩
      | .stalled => ⟨[], false, true⟩ := by
  rw [take, take.go]
  cases pull step budget s with
  | sample x next => simp [take_go_eq]
  | exhausted => rfl
  | stalled => rfl

theorem exists_steps_take (budget n : Nat) (s : σ) :
    ∃ t, Steps step s (take step budget n s).samples t := by
  induction n generalizing s with
  | zero => exact ⟨s, .zero s⟩
  | succ n ih =>
    rw [take_succ]
    cases hp : pull step budget s with
    | sample x next =>
      obtain ⟨t, ht⟩ := ih next
      exact ⟨t, (steps_of_pull hp).trans ht⟩
    | exhausted => exact ⟨s, .zero s⟩
    | stalled => exact ⟨s, .zero s⟩

theorem exists_take_samples (h : Steps step s out t) :
    ∃ budget, ∀ b, budget ≤ b → (take step b out.length s).samples = out := by
  induction out generalizing s with
  | nil => exact ⟨0, fun b _ ↦ rfl⟩
  | cons x out ih =>
    obtain ⟨budget, u, hp, hu⟩ := exists_pull_sample h
    obtain ⟨budget', ht⟩ := ih hu
    refine ⟨max budget budget', fun b hb ↦ ?_⟩
    rw [List.length_cons, take_succ, hp b (by omega)]
    simp only [ht b (by omega)]

theorem handsOut_iff : HandsOut step s x ↔ ∃ out t, Steps step s out t ∧ x ∈ out := by
  constructor
  · intro hex
    obtain ⟨budget, n, hx⟩ := hex
    obtain ⟨t, ht⟩ : ∃ t, Steps step s _ t := exists_steps_take budget n s
    exact ⟨_, t, ht, hx⟩
  · intro hex
    obtain ⟨out, t, h, hx⟩ := hex
    obtain ⟨budget, hb⟩ := exists_take_samples h
    refine ⟨budget, out.length, ?_⟩
    rwa [hb budget (Nat.le_refl _)]

theorem lists_of_steps (h : Steps step s out t) (ht : step t = .done) : Lists step s out := by
  induction out generalizing s with
  | nil =>
    obtain ⟨budget, hp⟩ := exists_pull_exhausted h ht
    refine ⟨budget, fun b hb n hn ↦ ?_⟩
    obtain ⟨n, rfl⟩ : ∃ k, n = k + 1 := ⟨n - 1, by omega⟩
    rw [take_succ, hp b hb]
  | cons x out ih =>
    obtain ⟨budget, u, hp, hu⟩ := exists_pull_sample h
    obtain ⟨budget', hl⟩ := ih hu
    refine ⟨max budget budget', fun b hb n hn ↦ ?_⟩
    rw [List.length_cons] at hn
    obtain ⟨n, rfl⟩ : ∃ k, n = k + 1 := ⟨n - 1, by omega⟩
    rw [take_succ, hp b (by omega)]
    simp only [hl b (by omega) n (by omega)]

theorem steps_of_lists (h : Lists step s out) : ∃ t, Steps step s out t ∧ step t = .done := by
  obtain ⟨budget, hb⟩ := h
  have ht := hb budget (Nat.le_refl _) (out.length + 1) (Nat.lt_succ_self _)
  clear hb
  induction out generalizing s with
  | nil =>
    rw [List.length_nil, take_succ] at ht
    cases hp : pull step budget s with
    | sample x next => simp [hp] at ht
    | exhausted => exact steps_of_pull_exhausted hp
    | stalled => simp [hp] at ht
  | cons x out ih =>
    rw [List.length_cons, take_succ] at ht
    cases hp : pull step budget s with
    | sample y next =>
      simp only [hp, Taken.mk.injEq, List.cons.injEq] at ht
      obtain ⟨⟨rfl, hout⟩, hex, hst⟩ := ht
      have hnext : take step budget (out.length + 1) next = ⟨out, true, false⟩ := by
        cases hr : take step budget (out.length + 1) next
        simp_all
      obtain ⟨t, hrun, hd⟩ := ih hnext
      exact ⟨t, (steps_of_pull hp).trans hrun, hd⟩
    | exhausted => simp [hp] at ht
    | stalled => simp [hp] at ht

theorem Lists.mem_iff (h : Lists step s out) : HandsOut step s x ↔ x ∈ out := by
  obtain ⟨t, ht, hd⟩ := steps_of_lists h
  rw [handsOut_iff]
  constructor
  · intro hex
    obtain ⟨out', u, h', hx⟩ := hex
    obtain ⟨more, rfl, -⟩ := ht.prefix_of_done hd h'
    exact List.mem_append_left _ hx
  · exact fun hx ↦ ⟨out, t, ht, hx⟩

/-- An enumeration cannot list two different rows of samples. -/
theorem Lists.unique {out' : List Sample} (h : Lists step s out) (h' : Lists step s out') :
    out = out' := by
  obtain ⟨t, ht, hd⟩ := steps_of_lists h
  obtain ⟨u, hu, hd'⟩ := steps_of_lists h'
  obtain ⟨more, rfl, hm⟩ := ht.prefix_of_done hd hu
  obtain ⟨rfl, -⟩ := Steps.of_done hd' hm
  simp

end Pull

section Lockstep

variable {σ : Type u} {τ : Type v} {f : Sample → Sample} {R : σ → τ → Prop} {step : σ → Step σ}
  {step' : τ → Step τ} {s : σ} {t : τ}

/-- Two steps that come to the same, but for what samples are changed into, and lead to related
states. -/
inductive Step.Lockstep (f : Sample → Sample) (R : σ → τ → Prop) : Step σ → Step τ → Prop
  | emit (x : Sample) {s : σ} {t : τ} : R s t → Lockstep f R (.emit x s) (.emit (f x) t)
  | skip {s : σ} {t : τ} : R s t → Lockstep f R (.skip s) (.skip t)
  | done : Lockstep f R .done .done

theorem pull_lockstep (hstep : ∀ s t, R s t → Step.Lockstep f R (step s) (step' t)) (h : R s t)
    (budget : Nat) :
    (∃ x s' t', pull step budget s = .sample x s' ∧ pull step' budget t = .sample (f x) t' ∧
      R s' t') ∨
    pull step budget s = .exhausted ∧ pull step' budget t = .exhausted ∨
    pull step budget s = .stalled ∧ pull step' budget t = .stalled := by
  induction budget generalizing s t with
  | zero => exact .inr (.inr ⟨rfl, rfl⟩)
  | succ budget ih =>
    have hst := hstep s t h
    unfold pull
    generalize step s = a at hst
    generalize step' t = b at hst
    cases hst with
    | emit x h => exact .inl ⟨x, _, _, rfl, rfl, h⟩
    | skip h => exact ih h
    | done => exact .inr (.inl ⟨rfl, rfl⟩)

/-- Enumerations whose steps come to the same hand out the same, but for what samples are changed
into, and end together. -/
theorem take_lockstep (hstep : ∀ s t, R s t → Step.Lockstep f R (step s) (step' t)) (h : R s t)
    (budget n : Nat) :
    take step' budget n t =
      { take step budget n s with samples := (take step budget n s).samples.map f } := by
  induction n generalizing s t with
  | zero => rfl
  | succ n ih =>
    rw [take_succ, take_succ]
    obtain ⟨x, s', t', hs, ht, hnext⟩ | ⟨hs, ht⟩ | ⟨hs, ht⟩ := pull_lockstep hstep h budget
    · rw [hs, ht]
      simp only [ih hnext, List.map_cons]
    · rw [hs, ht]
      rfl
    · rw [hs, ht]
      rfl

/-- Under other names for its states an enumeration lists the same. -/
theorem Lists.map {f : σ → τ} {out : List Sample} (hstep : ∀ a, step' (f a) = (step a).map f)
    (h : Lists step s out) : Lists step' (f s) out := by
  have hlock (a : σ) (b : τ) (hb : b = f a) :
      Step.Lockstep id (fun a b ↦ b = f a) (step a) (step' b) := by
    rw [hb, hstep]
    cases step a with
    | emit x next => exact .emit x rfl
    | skip next => exact .skip rfl
    | done => exact .done
  obtain ⟨budget, hbudget⟩ := h
  refine ⟨budget, fun b hb n hn ↦ ?_⟩
  rw [take_lockstep hlock rfl, hbudget b hb n hn, List.map_id]

end Lockstep

end LangBench
