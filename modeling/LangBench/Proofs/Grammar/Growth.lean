import LangBench.Proofs.Grammar.Agreement

/-!
What a derivation in progress keeps account of.

A derivation on the stack has grown from the start by expansions. However it has grown, its fields
tell the sum of the least lengths of what is pending and the least budget that has been consumed,
and nothing is pending that derives nothing. So it can always be completed, depth aside, to a word
that is short enough.
-/

namespace LangBench.Derivations

open Grammar

variable {g : Grammar} {maxDepth maxLength : Option Nat} {budget : Nat} {consumed : List Nat}
  {f : Frame} {d d' : Derivations}

/-- How a derivation has grown from the start, which was given a budget: by expanding its items one
after the other. The budgets of these items have been consumed, the last one is held first. -/
inductive Grown (g : Grammar) (maxLength : Option Nat) (budget : Nat) : List Nat → Frame → Prop
  | seed {f : Frame} (hf : f ∈ seed g maxLength budget) : Grown g maxLength budget [] f
  | expand {consumed : List Nat} {f f' : Frame} {x : Item} {b : Nat} {pending : List (Item × Nat)}
    (hf : Grown g maxLength budget consumed f) (hpending : f.pending = (x, b + 1) :: pending)
    (hf' : f' ∈ expand g maxLength (afterNext g f x (b + 1) pending) b x) :
    Grown g maxLength budget ((b + 1) :: consumed) f'

namespace Grown

theorem fits_eq (h : Grown g maxLength budget consumed f) : fits maxLength f = true := by
  cases h with
  | seed hf => exact (fits_of_mem_seed hf).2
  | expand _ _ hf' => exact (of_mem_expand hf').1

theorem pendingMin_eq (h : Grown g maxLength budget consumed f) :
    f.pendingMin = g.leastSum (f.pending.map Prod.fst) := by
  induction h with
  | seed hf =>
    obtain ⟨rfl, -⟩ := fits_of_mem_seed hf
    rfl
  | @expand _ f f' x b pending _ hpending hf' ih =>
    -- what is taken off for the item that is expanded has been part of the sum
    have hsum : f.pendingMin = g.minYield x + g.leastSum (pending.map Prod.fst) := by
      rw [ih, hpending]
      rfl
    obtain ⟨-, ⟨t, rfl, rfl⟩ | ⟨n, rfl, row, -, hne, rfl⟩⟩ := of_mem_expand hf'
    · simp only [afterNext]
      omega
    · rw [rowYield_eq] at hne
      simp only [afterNext, leastSum_budgeted, rowYield_eq]
      omega

theorem productive (h : Grown g maxLength budget consumed f) :
    ∀ p ∈ f.pending, g.minYield p.1 ≠ unproductive := by
  induction h with
  | seed hf =>
    obtain ⟨rfl, hfits⟩ := fits_of_mem_seed hf
    exact List.forall_mem_singleton.2 (fits_iff.1 hfits).1
  | expand _ hpending hf' ih =>
    rw [hpending, List.forall_mem_cons] at ih
    obtain ⟨-, ⟨t, rfl, rfl⟩ | ⟨n, rfl, row, -, hne, rfl⟩⟩ := of_mem_expand hf'
    · exact ih.2
    · refine List.forall_mem_append.2 ⟨fun p hp ↦ ?_, ih.2⟩
      obtain ⟨x, hx, rfl⟩ := List.mem_map.1 hp
      exact minYield_ne_of_leastSum_lt (leastSum_lt_of_rowYield hne) x hx

theorem minBudget_eq (h : Grown g maxLength budget consumed f) :
    f.minBudget = consumed.foldr min budget := by
  induction h with
  | seed hf =>
    obtain ⟨rfl, -⟩ := fits_of_mem_seed hf
    rfl
  | @expand consumed f f' x b _ _ _ hf' ih =>
    have hmin : f'.minBudget = min f.minBudget (b + 1) := by
      obtain ⟨-, ⟨t, rfl, rfl⟩ | ⟨n, rfl, row, -, -, rfl⟩⟩ := of_mem_expand hf' <;> rfl
    rw [hmin, ih, List.foldr_cons, Nat.min_comm]

theorem minYield_le_pendingMin (h : Grown g maxLength budget consumed f) :
    ∀ p ∈ f.pending, g.minYield p.1 ≤ f.pendingMin := by
  intro p hp
  rw [h.pendingMin_eq]
  exact minYield_le_leastSum (List.mem_map_of_mem hp)

theorem exists_forest (h : Grown g maxLength budget consumed f) :
    ∃ trees : g.Forest (f.pending.map Prod.fst), trees.yield.length = f.pendingMin := by
  rw [h.pendingMin_eq]
  refine exists_forest_of_minYield_ne fun x hx ↦ ?_
  obtain ⟨p, hp, rfl⟩ := List.mem_map.1 hx
  exact h.productive p hp

theorem frameSound (h : Grown g maxLength budget consumed f) : FrameSound g maxLength f := by
  induction h with
  | seed hf => exact (kept_frameSound g maxLength).seed _ _ hf
  | expand _ hpending hf' ih => exact (kept_frameSound g maxLength).expand _ _ _ _ ih hpending _ hf'

/-- Depth aside, a derivation in progress can be completed to a word that is short enough. -/
theorem exists_completion (h : Grown g maxLength budget consumed f) :
    ∃ trees : g.Forest (f.pending.map Prod.fst),
      g.Yields [.nonterminal g.start] (f.output.reverse ++ trees.yield) ∧
        WithinLength maxLength (f.output.reverse ++ trees.yield).length := by
  obtain ⟨trees, htrees⟩ := h.exists_forest
  refine ⟨trees, derives_wordRow_iff.1 (h.frameSound.derives.trans ?_), ?_⟩
  · rw [wordRow, wordRow, List.map_append]
    exact trees.derives.append_left _
  · rw [List.length_append, List.length_reverse, htrees]
    exact (fits_iff.1 h.fits_eq).2

end Grown

/-- The budget that the start was given: the depth bound, or without one the level. -/
def startBudget (maxDepth : Option Nat) (d : Derivations) : Nat := maxDepth.getD d.mode.level

/-- An enumeration of a grammar, all of whose derivations have grown from the start with its
budget. -/
structure AllGrown (g : Grammar) (maxDepth maxLength : Option Nat) (d : Derivations) : Prop where
  grammar_eq : d.grammar = g
  maxLength_eq : d.maxLength = maxLength
  bounded : ∀ depth ∈ maxDepth, d.mode = .bounded
  grown : ∀ f ∈ d.stack, ∃ consumed, Grown g maxLength (d.startBudget maxDepth) consumed f

theorem allGrown_ofGrammar (g : Grammar) (maxDepth maxLength : Option Nat) :
    AllGrown g maxDepth maxLength (ofGrammar g maxDepth maxLength) := by
  cases maxDepth with
  | none => exact ⟨rfl, rfl, nofun, fun f hf ↦ ⟨[], .seed hf⟩⟩
  | some depth => exact ⟨rfl, rfl, fun _ _ ↦ rfl, fun f hf ↦ ⟨[], .seed hf⟩⟩

theorem AllGrown.moves (h : AllGrown g maxDepth maxLength d) (hm : Moves d d') :
    AllGrown g maxDepth maxLength d' := by
  obtain ⟨rfl, rfl, hbounded, hgrown⟩ := h
  cases hm with
  | raise _ _ level =>
    cases maxDepth with
    | none => exact ⟨rfl, rfl, nofun, fun f hf ↦ ⟨[], .seed hf⟩⟩
    | some depth => cases hbounded depth rfl
  | finish _ => exact ⟨rfl, rfl, hbounded, (List.forall_mem_cons.1 hgrown).2⟩
  | @cut _ _ mode f stack _ _ _ =>
    -- noting a cut changes neither the level nor the bound
    refine ⟨rfl, rfl, fun depth hdepth ↦ ?_, fun f' hf' ↦ ?_⟩
    · obtain rfl : mode = .bounded := hbounded depth hdepth
      rfl
    · have hlevel : mode.noteCut.level = mode.level := by cases mode <;> rfl
      have hf := hgrown f' (List.mem_cons_of_mem f hf')
      simp only [startBudget, hlevel] at hf ⊢
      exact hf
  | expand hpending =>
    obtain ⟨⟨consumed, hf⟩, hstack⟩ := List.forall_mem_cons.1 hgrown
    exact ⟨rfl, rfl, hbounded,
      List.forall_mem_append.2 ⟨fun f' hf' ↦ ⟨_, hf.expand hpending hf'⟩, hstack⟩⟩

theorem AllGrown.steps {out : List Sample} (h : AllGrown g maxDepth maxLength d)
    (hrun : Steps step d out d') : AllGrown g maxDepth maxLength d' :=
  invariant_of_moves _ (fun _ _ ↦ AllGrown.moves) hrun h

section Counting

variable {limit : Option Nat} {level : Nat} {out : List Sample}

theorem Grown.pendingMin_lt (hg : g.WellFormed) (h : Grown g maxLength budget consumed f)
    (hcounts : g.Counts (f.pending.map Prod.fst)) : f.pendingMin < unproductive := by
  obtain ⟨trees, -⟩ := h.exists_forest
  rw [h.pendingMin_eq]
  exact hg.leastSum_lt trees hcounts

theorem rowsAdded_eq {n b : Nat} {pending : List (Item × Nat)} (mode : DepthMode)
    (stack : List Frame) (h : f.pending = (.nonterminal n, b + 1) :: pending) :
    rowsAdded ⟨g, maxLength, mode, f :: stack⟩ =
      (g.alternativesOf n).map (· ++ pending.map Prod.fst) := by
  obtain ⟨output, _, pendingMin, minBudget⟩ := f
  subst h
  rfl

theorem pendingMin_lt_of_mem_seed (hg : g.WellFormed) (hstart : g.Counts [.nonterminal g.start]) :
    ∀ f ∈ seed g maxLength budget, f.pendingMin < unproductive := by
  intro f hf
  refine (Grown.seed hf).pendingMin_lt hg ?_
  obtain ⟨rfl, -⟩ := fits_of_mem_seed hf
  exact hstart

/-- If the sums that come up in a step count, the sums that are held count after it. -/
theorem AllGrown.pendingMin_lt_of_moves (hg : g.WellFormed)
    (hstart : g.Counts [.nonterminal g.start]) (h : AllGrown g maxDepth maxLength d)
    (hrows : ∀ row ∈ d.rowsAdded, g.Counts row) (hm : Moves d d')
    (hd : ∀ f ∈ d.stack, f.pendingMin < unproductive) :
    ∀ f ∈ d'.stack, f.pendingMin < unproductive := by
  obtain ⟨rfl, rfl, -, hgrown⟩ := h
  cases hm with
  | raise => exact pendingMin_lt_of_mem_seed hg hstart
  | finish _ => exact (List.forall_mem_cons.1 hd).2
  | cut _ => exact (List.forall_mem_cons.1 hd).2
  | @expand _ _ mode _ stack _ _ _ hpending =>
    obtain ⟨⟨consumed, hf⟩, -⟩ := List.forall_mem_cons.1 hgrown
    obtain ⟨hlt, hstack⟩ := List.forall_mem_cons.1 hd
    refine List.forall_mem_append.2 ⟨fun f' hf' ↦ ?_, hstack⟩
    obtain ⟨-, ⟨t, rfl, rfl⟩ | ⟨n, rfl, row, hrow, -, heq⟩⟩ := of_mem_expand hf'
    · exact Nat.lt_of_le_of_lt (Nat.sub_le _ _) hlt
    · refine (hf.expand hpending hf').pendingMin_lt hg (hrows _ ?_)
      rw [rowsAdded_eq mode stack hpending, heq]
      refine List.mem_map.2 ⟨row, hrow, ?_⟩
      simp [afterNext, Function.comp_def]

theorem counts_start (hmod : (ofGrammar g maxDepth maxLength).ModerateUntil limit level) :
    g.Counts [.nonterminal g.start] := by
  have hstart := hmod.start
  rwa [(allGrown_ofGrammar g maxDepth maxLength).grammar_eq] at hstart

theorem counts_of_mem_rowsAdded
    (hmod : (ofGrammar g maxDepth maxLength).ModerateUntil limit level)
    (hrun : Steps step (ofGrammar g maxDepth maxLength) out d)
    (hpassed : ¬ Passed limit out.length) (hlevel : d.mode.level ≤ level) :
    ∀ row ∈ d.rowsAdded, g.Counts row := by
  have hrows := hmod.rows out d hrun hpassed hlevel
  rwa [(allGrown_ofGrammar g maxDepth maxLength).grammar_eq] at hrows

theorem pendingMin_lt_of_next (hg : g.WellFormed)
    (hmod : (ofGrammar g maxDepth maxLength).ModerateUntil limit level)
    (hrun : Steps step (ofGrammar g maxDepth maxLength) out d) (hm : Moves d d')
    (hpassed : ¬ Passed limit out.length) (hlevel : d'.mode.level ≤ level)
    (hd : d.mode.level ≤ level → ∀ f ∈ d.stack, f.pendingMin < unproductive) :
    ∀ f ∈ d'.stack, f.pendingMin < unproductive := by
  have hlevel' := Nat.le_trans hm.level_le hlevel
  have hrows := counts_of_mem_rowsAdded hmod hrun hpassed hlevel'
  have hgrown := (allGrown_ofGrammar g maxDepth maxLength).steps hrun
  exact hgrown.pendingMin_lt_of_moves hg (counts_start hmod) hrows hm (hd hlevel')

/-- For as long as the sums that come up count, those that are held do. -/
theorem pendingMin_lt_of_steps (hg : g.WellFormed)
    (hmod : (ofGrammar g maxDepth maxLength).ModerateUntil limit level)
    (hrun : Steps step (ofGrammar g maxDepth maxLength) out d) :
    ¬ Passed limit out.length → d.mode.level ≤ level →
      ∀ f ∈ d.stack, f.pendingMin < unproductive := by
  refine hrun.invariant_so_far (fun out d ↦ ¬ Passed limit out.length → d.mode.level ≤ level →
    ∀ f ∈ d.stack, f.pendingMin < unproductive) (fun _ _ ↦ ?_) ?_ ?_
  · cases maxDepth <;> exact pendingMin_lt_of_mem_seed hg (counts_start hmod)
  · intro out a b hrun ha hb hpassed hlevel
    exact pendingMin_lt_of_next hg hmod hrun (moves_of_skip hb) hpassed hlevel (ha hpassed)
  · intro out a x b hrun ha hb hpassed hlevel
    have hbefore : ¬ Passed limit out.length := fun h ↦ hpassed (h.mono (by simp))
    exact pendingMin_lt_of_next hg hmod hrun (moves_of_emit hb) hbefore hlevel (ha hbefore)

/-- The sum that the next step forms for an alternative counts. -/
theorem AllGrown.sum_lt (hg : g.WellFormed) (h : AllGrown g maxDepth maxLength d)
    (hrows : ∀ row ∈ d.rowsAdded, g.Counts row) {stack : List Frame} {n b : Nat}
    {pending : List (Item × Nat)} {alt : List Item} (hstack : d.stack = f :: stack)
    (hpending : f.pending = (.nonterminal n, b + 1) :: pending) (halt : alt ∈ g.alternativesOf n)
    (hproductive : g.rowYield alt ≠ unproductive) :
    f.pendingMin - g.minYield (.nonterminal n) + g.rowYield alt < unproductive := by
  obtain ⟨consumed, hf⟩ := h.grown f (hstack ▸ List.mem_cons_self)
  have hsum : f.pendingMin = g.minYield (.nonterminal n) + g.leastSum (pending.map Prod.fst) := by
    rw [hf.pendingMin_eq, hpending]
    rfl
  have hall := hf.productive
  rw [hpending, List.forall_mem_cons] at hall
  obtain ⟨first⟩ := nonempty_forest_of_rowYield hproductive
  have hpendings : ∀ x ∈ pending.map Prod.fst, g.minYield x ≠ unproductive :=
    List.forall_mem_map.2 hall.2
  obtain ⟨others, -⟩ := exists_forest_of_minYield_ne hpendings
  have hrow : alt ++ pending.map Prod.fst ∈ d.rowsAdded := by
    obtain ⟨g', maxLength', mode, stack'⟩ := d
    obtain ⟨rfl, rfl⟩ : g' = g ∧ stack' = f :: stack := ⟨h.grammar_eq, hstack⟩
    rw [rowsAdded_eq mode stack hpending]
    exact List.mem_map_of_mem halt
  have hlt := hg.leastSum_lt (first.append others) (hrows _ hrow)
  rw [leastSum_append] at hlt
  rw [rowYield_eq]
  omega

end Counting

/-- What a derivation in progress keeps account of, where the start was given a budget: the sum of
the least lengths of its pending items, all of which derive something, and the least budget that has
been consumed. So what is taken off the sum for an item is part of it, and depth aside the
derivation can be completed to a word that is short enough. -/
structure KeepsAccount (g : Grammar) (maxLength : Option Nat) (budget : Nat) (f : Frame) :
    Prop where
  pendingMin_eq : f.pendingMin = g.leastSum (f.pending.map Prod.fst)
  productive : ∀ p ∈ f.pending, g.minYield p.1 ≠ unproductive
  short : WithinLength maxLength (f.output.length + f.pendingMin)
  grown : ∃ consumed, Grown g maxLength budget consumed f
  minBudget_eq : ∀ consumed, Grown g maxLength budget consumed f →
    f.minBudget = consumed.foldr min budget
  minYield_le : ∀ p ∈ f.pending, g.minYield p.1 ≤ f.pendingMin
  completion : ∃ trees : g.Forest (f.pending.map Prod.fst),
    g.Yields [.nonterminal g.start] (f.output.reverse ++ trees.yield) ∧
      WithinLength maxLength (f.output.reverse ++ trees.yield).length

theorem Grown.keepsAccount (h : Grown g maxLength budget consumed f) :
    KeepsAccount g maxLength budget f where
  pendingMin_eq := h.pendingMin_eq
  productive := h.productive
  short := (fits_iff.1 h.fits_eq).2
  grown := ⟨consumed, h⟩
  minBudget_eq _ h' := h'.minBudget_eq
  minYield_le := h.minYield_le_pendingMin
  completion := h.exists_completion

/-- Whatever has been done, the derivations on the stack keep account. As long as the sums of least
lengths that come up count, so do those that are held, and the next step forms no other. -/
theorem stack_keeps_account {text : String} {alphabet : Option (List String)} {g : Grammar}
    (h : parse? text alphabet = .ok g) (maxDepth maxLength : Option Nat) {out : List Sample}
    {d : Derivations} (hrun : Steps step (ofGrammar g maxDepth maxLength) out d) :
    (∀ f ∈ d.stack, KeepsAccount g maxLength (d.startBudget maxDepth) f) ∧
    ((ofGrammar g maxDepth maxLength).ModerateUntil (some out.length) d.mode.level →
      (∀ f ∈ d.stack, f.pendingMin < unproductive) ∧
      ∀ f stack n b pending, d.stack = f :: stack →
        f.pending = (.nonterminal n, b + 1) :: pending →
        ∀ alt ∈ g.alternativesOf n, g.rowYield alt ≠ unproductive →
          f.pendingMin - g.minYield (.nonterminal n) + g.rowYield alt < unproductive) := by
  have hg := wellFormed_of_parse? h
  have hgrown := (allGrown_ofGrammar g maxDepth maxLength).steps hrun
  refine ⟨fun f hf ↦ ?_, fun hmod ↦ ⟨?_, ?_⟩⟩
  · obtain ⟨consumed, hf⟩ := hgrown.grown f hf
    exact hf.keepsAccount
  · exact pendingMin_lt_of_steps hg hmod hrun (by simp) (Nat.le_refl _)
  · intro f stack n b pending hstack hpending alt halt hproductive
    have hrows := counts_of_mem_rowsAdded hmod hrun (by simp) (Nat.le_refl _)
    exact hgrown.sum_lt hg hrows hstack hpending halt hproductive

/-- After one letter of a row two budgets have been consumed, and the rest may be empty. -/
theorem stack_keeps_account_repeat :
    ∃ g, parse? "S -> 'a' S |" none = .ok g ∧
      ∃ d f stack, Steps step (ofGrammar g (some 2) (some 3)) [] d ∧ d.stack = f :: stack ∧
        f.pending = [(.nonterminal 0, 1)] ∧ f.minBudget = 1 ∧
        KeepsAccount g (some 3) 2 f ∧
        f.pendingMin - g.minYield (.nonterminal 0) + g.rowYield [] < unproductive := by
  obtain ⟨g, d₁, d₂, f, stack, h, hrows, hfirst, hsecond, hstack, hpending, hbudget, hrow⟩ :
      ∃ g d₁ d₂ f stack, parse? "S -> 'a' S |" none = .ok g ∧
        g.alternativesOf 0 = [[.terminal 0, .nonterminal 0], []] ∧
        step (ofGrammar g (some 2) (some 3)) = .skip d₁ ∧ step d₁ = .skip d₂ ∧
        d₂.stack = f :: stack ∧ f.pending = [(.nonterminal 0, 1)] ∧ f.minBudget = 1 ∧
        g.rowYield [] ≠ unproductive :=
    ⟨_, _, _, _, _, by cbv, by cbv, by cbv, by cbv, by cbv, by cbv, by cbv, by cbv⟩
  have hrun : Steps step (ofGrammar g (some 2) (some 3)) [] d₂ :=
    .skip hfirst (.one_skip hsecond)
  have hmod := Cfg.moderate_of_repeat hrows (some 2) (some 3) d₂.mode.level
  obtain ⟨hkeeps, hsums⟩ := stack_keeps_account h (some 2) (some 3) hrun
  refine ⟨g, h, d₂, f, stack, hrun, hstack, hpending, hbudget, ?_, ?_⟩
  · exact hkeeps f (hstack ▸ List.mem_cons_self)
  · exact (hsums (hmod.moderateUntil _)).2 f stack 0 0 [] hstack hpending [] (by simp [hrows]) hrow

end LangBench.Derivations
