import LangBench.Proofs.Benchmark.Books

/-!
What a feed hands out and what it writes down, at any point of a row of calls.

Nothing is known of the source but that it answers pulls: it may end early, have only long samples,
or never end. A feed may be left before it has come to its end, and may be called again after it.
-/

namespace LangBench

universe u

section Pulls

variable {σ : Type u} {p : σ → Pull σ} {s t : σ} {out : List Sample}

/-- The first `n` samples of a source, or as many as it has, and what is left of it. -/
def pulls (p : σ → Pull σ) : Nat → σ → List Sample × σ
  | 0, s => ([], s)
  | n + 1, s =>
    match p s with
    | .sample x t => (x :: (pulls p n t).1, (pulls p n t).2)
    | _ => ([], s)

/-- A source as an enumeration, each step of which is a pull. -/
def stepOf (p : σ → Pull σ) (s : σ) : Step σ :=
  match p s with
  | .sample x t => .emit x t
  | .exhausted => .done
  | .stalled => .skip s

theorem pull_stepOf (p : σ → Pull σ) : pull (stepOf p) 1 = p := by
  funext s
  unfold pull stepOf
  cases p s <;> rfl

theorem stepOf_eq_emit {x : Sample} (h : stepOf p s = .emit x t) : p s = .sample x t := by
  unfold stepOf at h
  split at h <;> simp_all

theorem stepOf_eq_skip (h : stepOf p s = .skip t) : t = s := by
  unfold stepOf at h
  split at h <;> simp_all

theorem stepOf_eq_done (h : stepOf p s = .done) : p s = .exhausted := by
  unfold stepOf at h
  split at h <;> simp_all

/-- What is pulled after a run comes after what the run has handed out. -/
theorem pulls_of_steps (h : Steps (stepOf p) s out t) (n : Nat) :
    pulls p (out.length + n) s = (out ++ (pulls p n t).1, (pulls p n t).2) := by
  induction h with
  | zero => simp
  | skip h _ ih =>
    obtain rfl := stepOf_eq_skip h
    exact ih
  | emit h _ ih =>
    rw [List.length_cons, Nat.add_right_comm, pulls, stepOf_eq_emit h]
    simp [ih]

theorem pulls_of_exhausted (h : p s = .exhausted) (n : Nat) : (pulls p n s).1 = [] := by
  cases n with
  | zero => rfl
  | succ n => rw [pulls, h]

end Pulls

namespace Feed

variable {σ : Type u} {p : σ → Pull σ} {source : σ} {shape : Shape} {maxLength : Option Nat}
  {cap : Nat} {f g : Feed σ} {out pulled : List Sample}

/-- A feed that has not been called yet. -/
def start (source : σ) (shape : Shape) (maxLength : Option Nat) (cap : Nat) : Feed σ :=
  ⟨source, shape, maxLength, cap, .empty⟩

/-- A row of calls of a feed, with the samples that they hand out. -/
inductive Calls (p : σ → Pull σ) : Feed σ → List Sample → Feed σ → Prop
  | nil (f : Feed σ) : Calls p f [] f
  | sample {f g h : Feed σ} {x : Sample} {out : List Sample} :
      f.next p = .sample x g → Calls p g out h → Calls p f (x :: out) h
  | ended {f g h : Feed σ} {out : List Sample} :
      f.next p = .ended g → Calls p g out h → Calls p f out h

/-- A row of calls hands out those of the samples it pulls that pass. -/
theorem Calls.exists_fed (h : Calls p f out g) :
    ∃ pulled, f.Fed (stepOf p) pulled g ∧ out = pulled.filter f.passes := by
  induction h with
  | nil f => exact ⟨[], .refl f, rfl⟩
  | sample hnext _ ih =>
    rw [← pull_stepOf p] at hnext
    obtain ⟨first, hfed, hfirst⟩ := exists_fed_of_sample hnext
    obtain ⟨pulled, hfed', rfl⟩ := ih
    refine ⟨first ++ pulled, hfed.trans hfed', ?_⟩
    rw [List.filter_append, hfirst, hfed.passes_eq, List.singleton_append]
  | ended hnext _ ih =>
    rw [← pull_stepOf p] at hnext
    obtain ⟨first, hfed, hfirst, -⟩ := exists_fed_of_ended hnext
    obtain ⟨pulled, hfed', rfl⟩ := ih
    refine ⟨first ++ pulled, hfed.trans hfed', ?_⟩
    rw [List.filter_append, hfirst, hfed.passes_eq, List.nil_append]

/-- Whether a sample is no longer than a bound, if there is one. -/
def isShort (shape : Shape) (maxLength : Option Nat) (x : Sample) : Bool :=
  maxLength.all (lengthOf shape x ≤ ·)

theorem passes_start : (start source shape maxLength cap).passes = isShort shape maxLength := by
  funext x
  cases maxLength with
  | none => rfl
  | some n =>
    show (!decide (n < lengthOf shape x)) = decide (lengthOf shape x ≤ n)
    rw [← decide_not, decide_eq_decide]
    exact Nat.not_lt

theorem next_of_remaining_eq_zero (h : f.remaining = 0) (p : σ → Pull σ) :
    f.next p = .ended f := by
  rw [next]
  split
  · rfl
  · next hn => cases h.symm.trans hn

/-- What is known of a feed from a source once it has handed out some samples. -/
structure KeepsBooks (p : σ → Pull σ) (source : σ) (shape : Shape) (maxLength : Option Nat)
    (cap : Nat) (out : List Sample) (f : Feed σ) : Prop where
  handedOut : out <+: (pulls p cap source).1.filter (isShort shape maxLength)
  generated_eq : f.intake.generated = f.intake.used + f.intake.skipped
  generated_le : f.intake.generated ≤ cap
  used_eq : f.intake.used = out.length
  minLength_eq : f.intake.minLength = (out.map (lengthOf shape)).min?
  maxLength_eq : f.intake.maxLength = (out.map (lengthOf shape)).max?
  minLength_eq_none_iff : f.intake.minLength = none ↔ f.intake.used = 0
  maxLength_eq_none_iff : f.intake.maxLength = none ↔ f.intake.used = 0
  /-- The source has been pulled as often as has been written down. -/
  length_pulls : (pulls p f.intake.generated source).1.length = f.intake.generated
  source_eq : (pulls p f.intake.generated source).2 = f.source
  /-- At the limit no source is asked any more. -/
  next_eq : f.intake.generated = cap → ∀ p', f.next p' = .ended f
  /-- A feed does not end before it has handed out all that it may. -/
  complete : ∀ g, f.next p = .ended g →
    out = (pulls p cap source).1.filter (isShort shape maxLength)

theorem Fed.pulls_eq (h : (start source shape maxLength cap).Fed (stepOf p) pulled f) :
    (pulls p cap source).1 = pulled ++ (pulls p f.remaining f.source).1 := by
  have hrun : Steps (stepOf p) source pulled f.source := h.run
  have hcap : cap = pulled.length + f.remaining := h.remaining_eq
  rw [hcap, pulls_of_steps hrun]

theorem Fed.pulls_eq_of_spent (h : (start source shape maxLength cap).Fed (stepOf p) pulled f)
    (hspent : f.Spent (stepOf p)) : (pulls p cap source).1 = pulled := by
  rcases hspent with hzero | ⟨t, ht, hdone⟩
  · rw [h.pulls_eq, hzero, pulls, List.append_nil]
  · have hrun : Steps (stepOf p) source (pulled ++ []) t := h.run.trans ht
    rw [List.append_nil] at hrun
    have hcap : cap = pulled.length + f.remaining := h.remaining_eq
    rw [hcap, pulls_of_steps hrun, pulls_of_exhausted (stepOf_eq_done hdone), List.append_nil]

/-- After any row of calls the samples that a feed has handed out are the first ones among those it
may pull that are short enough, and its books tell of just these. -/
theorem keepsBooks_of_calls (h : Calls p (start source shape maxLength cap) out f) :
    (shape.lengthAxis = none → ∀ x, lengthOf shape x = 0) ∧
      KeepsBooks p source shape maxLength cap out f := by
  refine ⟨fun haxis x ↦ by simp [lengthOf, Shape.sampleLength, haxis], ?_⟩
  obtain ⟨pulled, hfed, hout⟩ := h.exists_fed
  have hbooks : f.intake = (start source shape maxLength cap).books pulled :=
    hfed.intake_eq.trans (foldl_enter _ _)
  have hcap : cap = pulled.length + f.remaining := hfed.remaining_eq
  have hrun : pulls p pulled.length source = (pulled ++ [], f.source) := pulls_of_steps hfed.run 0
  rw [List.append_nil] at hrun
  have hgenerated : f.intake.generated = pulled.length := by rw [hbooks]; rfl
  have hused : f.intake.used = out.length := by rw [hbooks, hout]; rfl
  have hmin : f.intake.minLength = (out.map (lengthOf shape)).min? := by rw [hbooks, hout]; rfl
  have hmax : f.intake.maxLength = (out.map (lengthOf shape)).max? := by rw [hbooks, hout]; rfl
  rw [passes_start] at hout
  exact {
    handedOut := by
      rw [hfed.pulls_eq, List.filter_append, ← hout]
      exact List.prefix_append _ _
    generated_eq := by
      rw [hbooks]
      exact List.length_eq_length_filter_add _
    generated_le := by omega
    used_eq := hused
    minLength_eq := hmin
    maxLength_eq := hmax
    minLength_eq_none_iff := by rw [hmin, hused]; simp [List.min?_eq_none_iff]
    maxLength_eq_none_iff := by rw [hmax, hused]; simp [List.max?_eq_none_iff]
    length_pulls := by rw [hgenerated, hrun]
    source_eq := by rw [hgenerated, hrun]
    next_eq := fun hall p' ↦ next_of_remaining_eq_zero (by omega) p'
    complete := fun g hnext ↦ by
      rw [← pull_stepOf p] at hnext
      obtain ⟨last, hfed', hlast, hspent⟩ := exists_fed_of_ended hnext
      rw [hfed.passes_eq, passes_start] at hlast
      rw [(hfed.trans hfed').pulls_eq_of_spent hspent, List.filter_append, hlast, List.append_nil,
        ← hout] }

/-- A source that hands out the samples of a list. -/
def pullList : List Sample → Pull (List Sample)
  | [] => .exhausted
  | x :: later => .sample x later

/-- With a bound of 2, a limit of 4 on five samples, and a call after the end. -/
theorem keepsBooks_of_calls_skipping :
    ∃ f, Calls pullList (start [[0, 0, 0], [1], [0, 1], [1, 1, 1], [0]] .sequence (some 2) 4)
        [[1], [0, 1]] f ∧
      f.intake = ⟨4, 2, 2, some 1, some 2⟩ ∧ f.source = [[0]] ∧ ∀ p', f.next p' = .ended f := by
  have h : Calls pullList (start [[0, 0, 0], [1], [0, 1], [1, 1, 1], [0]] .sequence (some 2) 4)
      [[1], [0, 1]] ⟨[[0]], .sequence, some 2, 0, ⟨4, 2, 2, some 1, some 2⟩⟩ :=
    .sample (by cbv) (.sample (by cbv) (.ended (by cbv) (.ended (by cbv) (.nil _))))
  obtain ⟨-, hkeeps⟩ := keepsBooks_of_calls h
  exact ⟨_, h, rfl, rfl, hkeeps.next_eq rfl⟩

end Feed

end LangBench
