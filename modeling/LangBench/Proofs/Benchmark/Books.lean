import LangBench.Benchmark.Feed
import LangBench.Proofs.Enumeration.Count

/-!
The books of a feed: what it has pulled from its source, what of that it has passed on, and what it
has written down.
-/

namespace LangBench

universe u

theorem min?_concat (l : List Nat) (n : Nat) : (l ++ [n]).min? = some (l.min?.elim n (min n)) := by
  cases l with
  | nil => rfl
  | cons m l =>
    rw [List.cons_append, List.min?_cons', List.min?_cons', List.foldl_append]
    exact congrArg some (Nat.min_comm _ _)

theorem max?_concat (l : List Nat) (n : Nat) : (l ++ [n]).max? = some (l.max?.elim n (max n)) := by
  cases l with
  | nil => rfl
  | cons m l =>
    rw [List.cons_append, List.max?_cons', List.max?_cons', List.foldl_append]
    exact congrArg some (Nat.max_comm _ _)

namespace Feed

variable {σ : Type u} {step : σ → Step σ} {budget n : Nat} {f f' f'' : Feed σ} {x : Sample}
  {pulled pulled' : List Sample}

/-- Whether a sample is short enough to be passed on. -/
def passes (f : Feed σ) (x : Sample) : Bool := !f.maxLength.any (· < lengthOf f.shape x)

/-- Enter a sample that has been pulled. -/
def enter (f : Feed σ) (i : Intake) (x : Sample) : Intake :=
  if f.passes x then i.use (lengthOf f.shape x) else i.skip

/-- The books of a feed that has pulled these samples. -/
def books (f : Feed σ) (pulled : List Sample) : Intake where
  generated := pulled.length
  skipped := (pulled.filter fun x ↦ !f.passes x).length
  used := (pulled.filter f.passes).length
  minLength := ((pulled.filter f.passes).map (lengthOf f.shape)).min?
  maxLength := ((pulled.filter f.passes).map (lengthOf f.shape)).max?

theorem enter_books (f : Feed σ) (pulled : List Sample) (x : Sample) :
    f.enter (f.books pulled) x = f.books (pulled ++ [x]) := by
  unfold enter books
  cases hx : f.passes x with
  | true => simp [hx, Intake.use, min?_concat, max?_concat]
  | false => simp [hx, Intake.skip]

theorem foldl_enter (f : Feed σ) (pulled : List Sample) :
    pulled.foldl f.enter .empty = f.books pulled := by
  induction pulled using List.reverseRecOn with
  | nil => rfl
  | append_singleton pulled x ih => rw [List.foldl_concat, ih, enter_books]

theorem books_of_forall_passes (h : ∀ x ∈ pulled, f.passes x = true) :
    f.books pulled = ⟨pulled.length, 0, pulled.length, (pulled.map (lengthOf f.shape)).min?,
      (pulled.map (lengthOf f.shape)).max?⟩ := by
  have hall : pulled.filter f.passes = pulled := List.filter_eq_self.2 h
  have hnone : (pulled.filter fun x ↦ !f.passes x) = [] := by
    simpa [List.filter_eq_nil_iff] using h
  rw [books, hall, hnone, List.length_nil]

theorem used_foldl_enter (f : Feed σ) (i : Intake) (pulled : List Sample) :
    (pulled.foldl f.enter i).used = i.used + (pulled.filter f.passes).length := by
  induction pulled generalizing i with
  | nil => rfl
  | cons x pulled ih =>
    rw [List.foldl_cons, ih, enter]
    cases hx : f.passes x with
    | true => simp [hx, Intake.use]; omega
    | false => simp [hx, Intake.skip]

/-- A feed has become another one by pulling samples, all of which it has entered. -/
structure Fed (step : σ → Step σ) (f : Feed σ) (pulled : List Sample) (f' : Feed σ) : Prop where
  run : Steps step f.source pulled f'.source
  shape_eq : f'.shape = f.shape
  maxLength_eq : f'.maxLength = f.maxLength
  remaining_eq : f.remaining = pulled.length + f'.remaining
  intake_eq : f'.intake = pulled.foldl f.enter f.intake

namespace Fed

theorem refl (f : Feed σ) : f.Fed step [] f where
  run := .zero _
  shape_eq := rfl
  maxLength_eq := rfl
  remaining_eq := by simp
  intake_eq := rfl

theorem passes_eq (h : f.Fed step pulled f') : f'.passes = f.passes := by
  funext x
  rw [passes, passes, h.shape_eq, h.maxLength_eq]

theorem enter_eq (h : f.Fed step pulled f') : f'.enter = f.enter := by
  funext i x
  rw [enter, enter, h.passes_eq, h.shape_eq]

theorem trans (h : f.Fed step pulled f') (h' : f'.Fed step pulled' f'') :
    f.Fed step (pulled ++ pulled') f'' where
  run := h.run.trans h'.run
  shape_eq := h'.shape_eq.trans h.shape_eq
  maxLength_eq := h'.maxLength_eq.trans h.maxLength_eq
  remaining_eq := by rw [h.remaining_eq, h'.remaining_eq, List.length_append, Nat.add_assoc]
  intake_eq := by rw [h'.intake_eq, h.enter_eq, h.intake_eq, List.foldl_append]

theorem skip {source : σ} (hn : f.remaining = n + 1)
    (hpull : pull step budget f.source = .sample x source) (hx : f.passes x = false) :
    f.Fed step [x] { f with source, remaining := n, intake := f.intake.skip } where
  run := steps_of_pull hpull
  shape_eq := rfl
  maxLength_eq := rfl
  remaining_eq := by simp [hn, Nat.add_comm]
  intake_eq := by simp [enter, hx]

theorem use {source : σ} (hn : f.remaining = n + 1)
    (hpull : pull step budget f.source = .sample x source) (hx : f.passes x = true) :
    f.Fed step [x] { f with source, remaining := n, intake := f.intake.use (lengthOf f.shape x) }
    where
  run := steps_of_pull hpull
  shape_eq := rfl
  maxLength_eq := rfl
  remaining_eq := by simp [hn, Nat.add_comm]
  intake_eq := by simp [enter, hx]

end Fed

/-- Nothing more can be pulled: the limit has been reached, or the source has come to its end. -/
def Spent (step : σ → Step σ) (f : Feed σ) : Prop :=
  f.remaining = 0 ∨ ∃ t, Steps step f.source [] t ∧ step t = .done

/-- Before a feed passes a sample on, it pulls only samples that it skips. -/
theorem exists_fed_of_sample (h : f.next (pull step budget) = .sample x f') :
    ∃ pulled, f.Fed step pulled f' ∧ pulled.filter f.passes = [x] := by
  fun_induction next (pull step budget) f with
  | case1 => simp at h
  | case2 => simp at h
  | case3 => simp at h
  | case4 f n hn y source hpull length hlong ih =>
    have hy : f.passes y = false := by simp [passes, length, hlong]
    have hone := Fed.skip hn hpull hy
    obtain ⟨pulled, hfed, hfilter⟩ := ih h
    rw [hone.passes_eq] at hfilter
    refine ⟨[y] ++ pulled, hone.trans hfed, ?_⟩
    rwa [List.singleton_append, List.filter_cons_of_neg (by simp [hy])]
  | case5 f n hn y source hpull length hshort =>
    cases h
    have hx : f.passes x = true := by simpa [passes, length] using hshort
    exact ⟨[x], .use hn hpull hx, List.filter_cons_of_pos hx⟩

/-- Before a feed ends, it pulls only samples that it skips, as long as there are any. -/
theorem exists_fed_of_ended (h : f.next (pull step budget) = .ended f') :
    ∃ pulled, f.Fed step pulled f' ∧ pulled.filter f.passes = [] ∧ f'.Spent step := by
  fun_induction next (pull step budget) f with
  | case1 f hn =>
    obtain rfl := Supply.ended.inj h
    exact ⟨[], .refl _, rfl, .inl hn⟩
  | case2 f n hn hpull =>
    obtain rfl := Supply.ended.inj h
    exact ⟨[], .refl _, rfl, .inr (steps_of_pull_exhausted hpull)⟩
  | case3 => simp at h
  | case4 f n hn y source hpull length hlong ih =>
    have hy : f.passes y = false := by simp [passes, length, hlong]
    have hone := Fed.skip hn hpull hy
    obtain ⟨pulled, hfed, hfilter, hspent⟩ := ih h
    rw [hone.passes_eq] at hfilter
    refine ⟨[y] ++ pulled, hone.trans hfed, ?_, hspent⟩
    rwa [List.singleton_append, List.filter_cons_of_neg (by simp [hy])]
  | case5 => simp at h

/-- A feed that can pull no more has pulled all samples of its source, up to the limit. -/
theorem Fed.length_eq_min (h : f.Fed step pulled f') (hspent : f'.Spent step) :
    (pulled.length : ℕ∞) = min (f.remaining : ℕ∞) (sampleCount step f.source) := by
  rcases hspent with hzero | ⟨t, ht, hdone⟩
  · have hlength : f.remaining = pulled.length := by simpa [hzero] using h.remaining_eq
    rw [hlength, min_eq_left (length_le_sampleCount h.run)]
  · have hrun : Steps step f.source pulled t := by simpa using h.run.trans ht
    have hle : (pulled.length : ℕ∞) ≤ f.remaining := by
      rw [h.remaining_eq]
      exact Nat.cast_le.2 (Nat.le_add_right _ _)
    rw [sampleCount_eq_of_done hrun hdone, min_eq_right hle]

end Feed

end LangBench
