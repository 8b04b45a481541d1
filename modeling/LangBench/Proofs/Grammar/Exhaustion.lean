import LangBench.Proofs.Grammar.LevelOrder

/-!
When the enumeration without a depth bound comes to an end: just when every tree that yields
something short enough has been handed out, so just if there are finitely many of them.
-/

namespace LangBench.Derivations

open Grammar

variable {g : Grammar} {maxLength : Option Nat} {k : Nat} {out : List Sample} {d : Derivations}

/-- The trees that a run has handed out: as many as it has handed out samples. -/
def treesHandedOut (g : Grammar) (maxLength : Option Nat) (out : List Sample) (d : Derivations) :
    List g.Tree :=
  (treesUpTo g maxLength d.mode.level).take out.length

theorem level_pos (h : Steps step (ofGrammar g none maxLength) out d) : 0 < d.mode.level :=
  level_le_of_steps h

/-- A run that comes to a state after a level has been worked off was there before. -/
theorem LevelsDone.eq_nil {j : Nat} {cut : Bool} (h : LevelsDone g maxLength k j cut)
    (hd : Steps step (atLevel g maxLength j cut []) out d) (hlevel : d.mode.level ≤ k) :
    out = [] := by
  cases cut with
  | false => exact (Steps.of_done (step_atLevel_done g maxLength j) hd).1
  | true =>
    obtain rfl := h.eq_of_cut rfl
    cases hd with
    | zero => rfl
    | skip hstep hrest =>
      cases hstep
      have hle := level_le_of_steps hrest
      exact absurd hle (Nat.not_le_of_lt (Nat.lt_succ_of_le hlevel))
    | emit hstep _ => cases hstep

theorem prefix_treesUpTo (hg : g.WellFormed) (hrun : Steps step (ofGrammar g none maxLength) out d)
    (hmod : (ofGrammar g none maxLength).ModerateFor out.length) :
    out <+: (treesUpTo g maxLength d.mode.level).map Forest.yield := by
  obtain ⟨k, hk⟩ := Nat.exists_eq_add_of_le' (level_pos hrun)
  obtain ⟨j, cut, hdone⟩ | ⟨first, rest, d', hfirst, hrun', hpassed⟩ :=
    exists_levelsDone (k := k) hg (hmod.moderateUntil _)
  · rw [← hk] at hdone
    obtain ⟨more, hmore, -⟩ | ⟨more, hmore, hsteps⟩ := hrun.comparable hdone.steps
    · exact ⟨more, hmore.symm⟩
    · rw [hdone.eq_nil hsteps (Nat.le_refl _), List.append_nil] at hmore
      exact ⟨[], by rw [hmore, List.append_nil]⟩
  · rw [← hk] at hfirst
    rw [hfirst]
    rw [passed_some] at hpassed
    obtain ⟨more, rfl, -⟩ | ⟨more, rfl, -⟩ := hrun.comparable hrun'
    · exact ⟨more ++ rest, (List.append_assoc _ _ _).symm⟩
    · rw [List.length_append] at hpassed
      omega

theorem eq_map_treesHandedOut (hg : g.WellFormed)
    (hrun : Steps step (ofGrammar g none maxLength) out d)
    (hmod : (ofGrammar g none maxLength).ModerateFor out.length) :
    out = (treesHandedOut g maxLength out d).map Forest.yield := by
  rw [treesHandedOut, List.map_take]
  exact List.prefix_iff_eq_take.1 (prefix_treesUpTo hg hrun hmod)

/-- As long as a level has more trees than have been handed out, the enumeration goes on. -/
theorem exists_pull_sample_of_lt (hg : g.WellFormed)
    (hrun : Steps step (ofGrammar g none maxLength) out d)
    (hmod : (ofGrammar g none maxLength).ModerateFor out.length)
    (hlt : out.length < (treesUpTo g maxLength (k + 1)).length) :
    ∃ budget x d', ∀ b, budget ≤ b → pull step b d = .sample x d' := by
  have hpast : ∃ first d', Steps step (ofGrammar g none maxLength) first d' ∧
      out.length < first.length := by
    obtain ⟨j, cut, hdone⟩ | ⟨first, rest, d', -, hrun', hpassed⟩ :=
      exists_levelsDone (k := k) hg (hmod.moderateUntil _)
    · exact ⟨_, _, hdone.steps, by rwa [List.length_map]⟩
    · exact ⟨first, d', hrun', passed_some.1 hpassed⟩
  obtain ⟨first, d', hrun', hlt⟩ := hpast
  obtain ⟨more, rfl, hmore⟩ | ⟨more, rfl, -⟩ := hrun.comparable hrun'
  · cases more with
    | nil => simp at hlt
    | cons x more =>
      obtain ⟨budget, d'', hpull, -⟩ := exists_pull_sample hmore
      exact ⟨budget, x, d'', hpull⟩
  · rw [List.length_append] at hlt
    omega

theorem exists_pull_sample_of_not_mem (hg : g.WellFormed)
    (hrun : Steps step (ofGrammar g none maxLength) out d)
    (hmod : (ofGrammar g none maxLength).ModerateFor out.length) {t : g.Tree}
    (ht : WithinLength maxLength t.yield.length) (hnot : t ∉ treesHandedOut g maxLength out d) :
    ∃ budget x d', ∀ b, budget ≤ b → pull step b d = .sample x d' := by
  obtain ⟨k, hk⟩ := Nat.exists_eq_add_of_le' t.height_pos
  have hle := (prefix_treesUpTo hg hrun hmod).length_le
  rw [List.length_map] at hle
  refine exists_pull_sample_of_lt (k := max d.mode.level k) hg hrun hmod ?_
  have hprefix : treesUpTo g maxLength d.mode.level <+:
      treesUpTo g maxLength (max d.mode.level k + 1) := treesUpTo_prefix (by omega)
  refine Nat.lt_of_not_le fun hge ↦ hnot ?_
  have heq := hprefix.eq_of_length (Nat.le_antisymm hprefix.length_le (Nat.le_trans hge hle))
  rw [treesHandedOut, List.take_of_length_le (by rwa [heq]), heq]
  exact mem_treesUpTo.2 ⟨by omega, ht⟩

theorem exists_pull_exhausted_of_forall_mem (hg : g.WellFormed)
    (hrun : Steps step (ofGrammar g none maxLength) out d)
    (hmod : (ofGrammar g none maxLength).ModerateFor out.length)
    (hall : ∀ t : g.Tree, WithinLength maxLength t.yield.length →
      t ∈ treesHandedOut g maxLength out d) :
    ∃ budget, ∀ b, budget ≤ b → pull step b d = .exhausted := by
  obtain ⟨k, hk⟩ := Nat.exists_eq_add_of_le' (level_pos hrun)
  have hle : (treesUpTo g maxLength (k + 1)).length ≤ out.length := by
    have hsub : treesUpTo g maxLength (k + 1) ⊆ treesHandedOut g maxLength out d :=
      fun t ht ↦ hall t (mem_treesUpTo.1 ht).2
    have hlen := ((nodup_treesUpTo g maxLength (k + 1)).subperm hsub).length_le
    exact Nat.le_trans hlen (List.length_take_le _ _)
  obtain ⟨j, cut, hdone⟩ | ⟨first, rest, d', hfirst, -, hpassed⟩ :=
    exists_levelsDone (k := k) hg (hmod.moderateUntil _)
  · obtain rfl : cut = false := by
      refine Bool.eq_false_iff.2 fun hcut ↦ ?_
      obtain ⟨t, hlt, ht⟩ := hdone.cut_iff.1 hcut
      have hmem := List.mem_of_mem_take (hall t ht)
      have := (mem_treesUpTo.1 hmem).1
      omega
    obtain ⟨more, hmore, hrest⟩ := hdone.steps.prefix_of_done (step_atLevel_done _ _ _) hrun
    have hnil : more = [] := by
      have hlen := congrArg List.length hmore
      rw [List.length_map, List.length_append] at hlen
      exact List.eq_nil_of_length_eq_zero (by omega)
    rw [hnil] at hrest
    exact exists_pull_exhausted hrest (step_atLevel_done _ _ _)
  · have hlen := congrArg List.length hfirst
    rw [List.length_map, List.length_append] at hlen
    rw [passed_some] at hpassed
    omega

/-- If all sums count, the enumeration has an end just if there are finitely many trees. -/
theorem exists_lists_iff_finite (hg : g.WellFormed)
    (hmod : ∀ n, (ofGrammar g none maxLength).ModerateFor n) :
    (∃ samples, Lists step (ofGrammar g none maxLength) samples) ↔
      {t : g.Tree | WithinLength maxLength t.yield.length}.Finite := by
  constructor
  · rintro ⟨samples, hlists⟩
    obtain ⟨d, hrun, hdone⟩ := steps_of_lists hlists
    refine (treesHandedOut g maxLength samples d).finite_toSet.subset fun t ht ↦ ?_
    refine Classical.byContradiction fun hnot ↦ ?_
    obtain ⟨budget, x, d', hpull⟩ := exists_pull_sample_of_not_mem hg hrun (hmod _) ht hnot
    have hsample := hpull (budget + 1) (Nat.le_succ _)
    rw [pull, hdone] at hsample
    cases hsample
  · intro hfinite
    obtain ⟨k, hk⟩ := (hfinite.image Forest.height).bddAbove
    obtain ⟨j, cut, hdone⟩ := levelsDone (k := k) hg (moderate_of_moderateFor hmod _)
    obtain rfl : cut = false := by
      refine Bool.eq_false_iff.2 fun hcut ↦ ?_
      obtain ⟨t, hlt, ht⟩ := hdone.cut_iff.1 hcut
      have := hk (Set.mem_image_of_mem Forest.height ht)
      omega
    exact ⟨_, lists_of_steps hdone.steps (step_atLevel_done _ _ _)⟩

/-- There are infinitely many trees of a kind if none is the highest. -/
theorem infinite_of_forall_higher {P : g.Tree → Prop} (hex : ∃ t, P t)
    (h : ∀ t, P t → ∃ t', P t' ∧ t.height < t'.height) : {t | P t}.Infinite := by
  intro hfinite
  obtain ⟨t, ht, hmax⟩ := Set.exists_max_image _ Forest.height hfinite hex
  obtain ⟨t', ht', hlt⟩ := h t ht
  exact Nat.not_le_of_lt hlt (hmax t' ht')

/-- Wherever the enumeration without a depth bound is, as long as sums count the next request for a
sample is answered. The answer is that nothing is left just if all trees that yield something short
enough have been handed out. So the enumeration has an end just if there are finitely many of them,
and once it has come to its end it stays there. -/
theorem exhausted_iff_all_handed_out {text : String} {alphabet : Option (List String)} {g : Grammar}
    (h : parse? text alphabet = .ok g) (maxLength : Option Nat) :
    (∀ out d, Steps step (ofGrammar g none maxLength) out d →
      (ofGrammar g none maxLength).ModerateFor out.length →
      out = (treesHandedOut g maxLength out d).map Forest.yield ∧
      (treesHandedOut g maxLength out d).Nodup ∧
      ∃ budget, ∀ b, budget ≤ b → pull step b d ≠ .stalled ∧
        (pull step b d = .exhausted ↔ ∀ t : g.Tree, WithinLength maxLength t.yield.length →
          t ∈ treesHandedOut g maxLength out d)) ∧
    ((∀ n, (ofGrammar g none maxLength).ModerateFor n) →
      ((∃ samples, Lists step (ofGrammar g none maxLength) samples) ↔
        {t : g.Tree | WithinLength maxLength t.yield.length}.Finite)) ∧
    ∀ (d : Derivations) (budget : Nat), pull step budget d = .exhausted →
      ∃ d', Steps step d [] d' ∧ ∀ b, 0 < b → pull step b d' = .exhausted := by
  have hg := wellFormed_of_parse? h
  refine ⟨fun out d hrun hmod ↦ ⟨eq_map_treesHandedOut hg hrun hmod, ?_, ?_⟩,
    exists_lists_iff_finite hg, fun d budget hpull ↦ ?_⟩
  · exact (nodup_treesUpTo g maxLength d.mode.level).sublist (List.take_sublist _ _)
  · by_cases hall : ∀ t : g.Tree, WithinLength maxLength t.yield.length →
      t ∈ treesHandedOut g maxLength out d
    · obtain ⟨budget, hpull⟩ := exists_pull_exhausted_of_forall_mem hg hrun hmod hall
      refine ⟨budget, fun b hb ↦ ?_⟩
      rw [hpull b hb]
      exact ⟨nofun, iff_of_true rfl hall⟩
    · obtain ⟨t, ht⟩ := not_forall.1 hall
      obtain ⟨ht, hnot⟩ := Classical.not_imp.1 ht
      obtain ⟨budget, x, d', hpull⟩ := exists_pull_sample_of_not_mem hg hrun hmod ht hnot
      refine ⟨budget, fun b hb ↦ ?_⟩
      rw [hpull b hb]
      exact ⟨nofun, iff_of_false nofun hall⟩
  · obtain ⟨d', hrun, hdone⟩ := steps_of_pull_exhausted hpull
    refine ⟨d', hrun, fun b hb ↦ ?_⟩
    obtain ⟨b, rfl⟩ := Nat.exists_eq_add_of_le' hb
    rw [pull, hdone]

/-- A grammar with ever higher trees: the first request is answered, but there is no end. -/
theorem exhausted_iff_all_handed_out_doubling :
    ∃ g, parse? "S -> S S | 'a' |" none = .ok g ∧
      (∃ budget, ∀ b, budget ≤ b → pull step b (ofGrammar g none none) ≠ .stalled) ∧
      ¬ ∃ samples, Lists step (ofGrammar g none none) samples := by
  obtain ⟨g, h, hrows⟩ : ∃ g, parse? "S -> S S | 'a' |" none = .ok g ∧
      g.alternativesOf 0 = [[.nonterminal 0, .nonterminal 0], [.terminal 0], []] :=
    ⟨_, by cbv, by cbv⟩
  have hmod := moderateFor_of_moderate (moderate_of_doubling hrows none none)
  obtain ⟨hanswer, hend, -⟩ := exhausted_iff_all_handed_out h none
  obtain ⟨-, -, budget, hbudget⟩ := hanswer [] _ (.zero _) (hmod 0)
  refine ⟨g, h, ⟨budget, fun b hb ↦ (hbudget b hb).1⟩, ?_⟩
  rw [hend hmod]
  obtain ⟨leaf, -⟩ := Forest.exists_expand (n := g.start)
    (show [] ∈ g.alternativesOf 0 by simp [hrows]) .nil
  refine infinite_of_forall_higher ⟨leaf, by simp [WithinLength]⟩ fun t _ ↦ ?_
  obtain ⟨t', -, hheight⟩ := Forest.exists_expand (n := g.start)
    (show [.nonterminal 0, .nonterminal 0] ∈ g.alternativesOf 0 by simp [hrows]) (t.append t)
  refine ⟨t', by simp [WithinLength], ?_⟩
  calc t.height = (t.append t).height :=
        ((Forest.height_append t t).trans (Nat.max_self _)).symm
    _ < (t.append t).height + 1 := Nat.lt_succ_self _
    _ = t'.height := hheight.symm

end LangBench.Derivations
