import LangBench.Proofs.Grammar.Deepening

/-!
An enumeration with a depth bound takes the way of the last level that deepening enters up to the
bound, with all budgets greater by what the bound is above that level. The sums that come up are
therefore the same.
-/

namespace LangBench.Derivations

open Grammar

variable {g : Grammar} {maxLength : Option Nat} {level m : Nat} {cut : Bool} {stack : List Frame}

/-- A derivation in progress with all budgets greater by `m`. -/
def raise (m : Nat) (f : Frame) : Frame :=
  { f with
    pending := f.pending.map fun (x, budget) ↦ (x, budget + m)
    minBudget := f.minBudget + m }

theorem replaced_raise (f : Frame) (budget : Nat) (row : List Item) :
    replaced g (raise m f) (budget + m) row = (replaced g f budget row).map (raise m) := by
  unfold replaced
  split
  · rfl
  · simp [raise, Function.comp_def]

theorem expand_raise (f : Frame) (budget : Nat) (x : Item) :
    expand g maxLength (raise m f) (budget + m) x =
      (expand g maxLength f budget x).map (raise m) := by
  have hfits : fits maxLength ∘ raise m = fits maxLength := rfl
  cases x with
  | terminal x =>
    rw [expand, expand, ← hfits, ← List.filter_map]
    rfl
  | nonterminal n =>
    rw [expand, expand, ← hfits, ← List.filter_map, List.map_filterMap]
    exact congrArg _ (List.filterMap_congr fun row _ ↦ replaced_raise f budget row)

theorem seed_raise (g : Grammar) (maxLength : Option Nat) (m budget : Nat) :
    seed g maxLength (budget + m) = (seed g maxLength budget).map (raise m) := by
  have hfits : fits maxLength ∘ raise m = fits maxLength := rfl
  rw [seed, seed, ← hfits, ← List.filter_map]
  rfl

/-- The enumeration with a depth bound, in the middle of its work. -/
abbrev withBound (g : Grammar) (maxLength : Option Nat) (stack : List Frame) : Derivations :=
  ⟨g, maxLength, .bounded, stack⟩

/-- Some step of a level, from these derivations on, cuts a branch short. -/
def Cuts (g : Grammar) (maxLength : Option Nat) (level : Nat) (cut : Bool) (stack : List Frame) :
    Prop :=
  ∃ out stack', Steps step (atLevel g maxLength level cut stack) out
    (atLevel g maxLength level true stack')

theorem Cuts.of_steps {out : List Sample} {cut' : Bool} {stack' : List Frame}
    (h : Steps step (atLevel g maxLength level cut stack) out
      (atLevel g maxLength level cut' stack')) (h' : Cuts g maxLength level cut' stack') :
    Cuts g maxLength level cut stack := by
  obtain ⟨out', stack'', h'⟩ := h'
  exact ⟨_, stack'', h.trans h'⟩

/-- A step with the bound is taken at the level too, unless the level cuts a branch short that the
bound does not. -/
theorem step_raise {d : Derivations}
    (h : step (withBound g maxLength (stack.map (raise m))) = .skip d ∨
      ∃ x, step (withBound g maxLength (stack.map (raise m))) = .emit x d) :
    (0 < m ∧ Cuts g maxLength level cut stack) ∨
    ∃ out cut' stack', Steps step (atLevel g maxLength level cut stack) out
      (atLevel g maxLength level cut' stack') ∧ d = withBound g maxLength (stack'.map (raise m)) := by
  rcases stack with _ | ⟨⟨output, pending, pendingMin, minBudget⟩, stack⟩
  · simp [step] at h
  · rcases pending with _ | ⟨⟨x, _ | budget⟩, pending⟩
    · have hd : d = withBound g maxLength (stack.map (raise m)) := by
        rcases h with h | ⟨x, h⟩ <;> cases h
        rfl
      by_cases hadmits : (DepthMode.deepening level cut).admits minBudget = true
      · exact .inr ⟨_, cut, stack, .one_emit (by simp only [step, hadmits, if_true]; rfl), hd⟩
      · exact .inr ⟨_, cut, stack, .one_skip (by simp only [step, hadmits]; rfl), hd⟩
    · rcases Nat.eq_zero_or_pos m with rfl | hm
      · refine .inr ⟨[], true, stack, .one_skip rfl, ?_⟩
        rcases h with h | ⟨x, h⟩ <;> cases h
        rfl
      · exact .inl ⟨hm, [], stack, .one_skip rfl⟩
    · refine .inr ⟨[], cut, _, .one_skip rfl, ?_⟩
      have hbudget : budget + 1 + m = (budget + m) + 1 := Nat.add_right_comm _ _ _
      have hmin : min (minBudget + m) (budget + m + 1) = min minBudget (budget + 1) + m := by omega
      rw [List.map_append, ← expand_raise]
      simp only [step, raise, List.map_cons, hbudget, hmin, Step.skip.injEq, reduceCtorEq,
        exists_false, or_false] at h
      exact h.symm

/-- A run with the bound is taken at the level too, up to where the level cuts a branch short that
the bound does not. -/
theorem steps_raise {d : Derivations} {out : List Sample}
    (h : Steps step (withBound g maxLength (stack.map (raise m))) out d) :
    (0 < m ∧ Cuts g maxLength level cut stack) ∨
    ∃ out' cut' stack', Steps step (atLevel g maxLength level cut stack) out'
      (atLevel g maxLength level cut' stack') ∧ d = withBound g maxLength (stack'.map (raise m)) := by
  generalize hs : withBound g maxLength (stack.map (raise m)) = s at h
  induction h generalizing stack cut with
  | zero => exact .inr ⟨[], cut, stack, .zero _, hs.symm⟩
  | skip h _ ih =>
    subst hs
    obtain hcuts | ⟨out', cut', stack', hfirst, rfl⟩ := step_raise (.inl h)
    · exact .inl hcuts
    · obtain ⟨hm, hcuts⟩ | ⟨out'', cut'', stack'', hrest, hd⟩ := ih rfl
      · exact .inl ⟨hm, .of_steps hfirst hcuts⟩
      · exact .inr ⟨_, cut'', stack'', hfirst.trans hrest, hd⟩
  | emit h _ ih =>
    subst hs
    obtain hcuts | ⟨out', cut', stack', hfirst, rfl⟩ := step_raise (.inr ⟨_, h⟩)
    · exact .inl hcuts
    · obtain ⟨hm, hcuts⟩ | ⟨out'', cut'', stack'', hrest, hd⟩ := ih rfl
      · exact .inl ⟨hm, .of_steps hfirst hcuts⟩
      · exact .inr ⟨_, cut'', stack'', hfirst.trans hrest, hd⟩

/-- The same rows are added, unless the level cuts a branch short that the bound does not. -/
theorem rowsAdded_raise {row : List Item}
    (h : row ∈ (withBound g maxLength (stack.map (raise m))).rowsAdded) :
    (0 < m ∧ Cuts g maxLength level cut stack) ∨
      row ∈ (atLevel g maxLength level cut stack).rowsAdded := by
  rcases stack with _ | ⟨⟨output, pending, pendingMin, minBudget⟩, stack⟩
  · exact .inr h
  · rcases pending with _ | ⟨⟨x, _ | budget⟩, pending⟩
    · simp [raise, rowsAdded] at h
    · rcases Nat.eq_zero_or_pos m with rfl | hm
      · cases x <;> simp [raise, rowsAdded] at h
      · exact .inl ⟨hm, [], stack, .one_skip rfl⟩
    · refine .inr ?_
      have hbudget : budget + 1 + m = (budget + m) + 1 := Nat.add_right_comm _ _ _
      cases x with
      | terminal x => simp [raise, rowsAdded] at h
      | nonterminal n => simpa [raise, rowsAdded, hbudget, Function.comp_def] using h

/-- A level that has cut a branch short does not forget it. -/
theorem mode_of_steps_cut {d : Derivations} {out : List Sample}
    (h : Steps step (atLevel g maxLength level true stack) out d) :
    d.mode = .deepening level true ∨ level < d.mode.level := by
  refine invariant_of_moves (fun e ↦ e.mode = .deepening level true ∨ level < e.mode.level)
    (fun a b ha hm ↦ ?_) h (.inl rfl)
  rcases ha with hmode | hlt
  · cases hm with
    | raise _ _ level' =>
      cases hmode
      exact .inr (Nat.lt_succ_self _)
    | finish _ => exact .inl hmode
    | cut _ =>
      cases hmode
      exact .inl rfl
    | expand _ => exact .inl hmode
  · exact .inr (Nat.lt_of_lt_of_le hlt hm.level_le)

/-- With the bound 0 no sums come up. -/
theorem rowsAdded_bound_zero {d : Derivations} {out : List Sample}
    (h : Steps step (ofGrammar g (some 0) maxLength) out d) : d.rowsAdded = [] := by
  let I (d : Derivations) : Prop :=
    d.mode = .bounded ∧ ∀ f ∈ d.stack, f.pending = [(.nonterminal g.start, 0)]
  have hmoves (a b : Derivations) (ha : I a) (hm : Moves a b) : I b := by
    obtain ⟨hmode, hstack⟩ := ha
    cases hm with
    | raise => cases hmode
    | finish _ => exact ⟨hmode, (List.forall_mem_cons.1 hstack).2⟩
    | cut _ =>
      cases hmode
      exact ⟨rfl, (List.forall_mem_cons.1 hstack).2⟩
    | expand hpending =>
      have hnone := (List.forall_mem_cons.1 hstack).1
      simp [hpending] at hnone
  have hinv : I d :=
    invariant_of_moves I hmoves h ⟨rfl, fun f hf ↦ by rw [(fits_of_mem_seed hf).1]⟩
  unfold rowsAdded
  split
  · next hstack =>
    have := hinv.2 _ (by rw [hstack]; exact List.mem_cons_self)
    simp at this
  · rfl

/-- If the sums count that come up while the levels up to a depth are worked off, those count that
come up if this depth is the bound. -/
theorem Moderate.bounded (hg : g.WellFormed) {depth : Nat}
    (hmod : (ofGrammar g none maxLength).Moderate depth) (h : Nat) :
    (ofGrammar g (some depth) maxLength).Moderate h := by
  refine ⟨hmod.start, fun out d hsteps _ row hrow ↦ ?_⟩
  cases depth with
  | zero => simp [rowsAdded_bound_zero hsteps] at hrow
  | succ k =>
    obtain ⟨j, cut, hdone⟩ := levelsDone hg hmod
    obtain ⟨before, out', hbefore, hlevel⟩ := hdone.entered
    obtain ⟨m, hm⟩ := Nat.exists_eq_add_of_le hdone.le
    have hnot : ¬ (0 < m ∧ Cuts g maxLength j false (seed g maxLength j)) := by
      rintro ⟨hpos, _, stack', hcuts⟩
      obtain rfl : cut = false := by
        refine Bool.eq_false_iff.2 fun hcut ↦ ?_
        have := hdone.eq_of_cut hcut
        omega
      obtain ⟨more, -, hmore⟩ := hlevel.prefix_of_done (step_atLevel_done _ _ _) hcuts
      obtain heq | hlt := mode_of_steps_cut hmore
      · cases heq
      · exact Nat.lt_irrefl _ hlt
    have hseed : ofGrammar g (some (k + 1)) maxLength =
        Derivations.withBound g maxLength ((seed g maxLength j).map (raise m)) := by
      rw [← seed_raise, ← hm]
      rfl
    rw [hseed] at hsteps
    obtain ⟨out'', cut', stack', hrun, rfl⟩ := (steps_raise hsteps).resolve_left hnot
    have hrow := (rowsAdded_raise hrow).resolve_left
      fun ⟨hpos, hcuts⟩ ↦ hnot ⟨hpos, .of_steps hrun hcuts⟩
    exact hmod.rows _ _ (hbefore.trans hrun) hdone.le row hrow

end LangBench.Derivations
