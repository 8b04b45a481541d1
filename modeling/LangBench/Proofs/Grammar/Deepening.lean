import LangBench.Proofs.Grammar.Levels

/-!
Without a depth bound one level is worked off after the other, for as long as there are trees that
are higher. A level hands out the trees of its height, in the order in which they would be listed if
the level were a bound.
-/

namespace LangBench.Derivations

open Grammar

section Trees

variable {g : Grammar} {maxLength : Option Nat} {k : Nat} {t : g.Tree}

/-- The trees of the start within a depth that yield something short enough, in the order in which
they are listed if that depth is the bound. -/
def treesWithin (g : Grammar) (maxLength : Option Nat) (depth : Nat) : List g.Tree :=
  (g.forests depth [.nonterminal g.start]).filter fun t ↦ WithinLength maxLength t.yield.length

/-- Those of the trees within a depth that use all of it. -/
def treesOfHeight (g : Grammar) (maxLength : Option Nat) (k : Nat) : List g.Tree :=
  (treesWithin g maxLength k).filter fun t ↦ t.height = k

/-- The trees of height 1, then those of height 2, and so on. -/
def treesUpTo (g : Grammar) (maxLength : Option Nat) (k : Nat) : List g.Tree :=
  (List.range' 1 k).flatMap (treesOfHeight g maxLength)

theorem mem_treesWithin : t ∈ treesWithin g maxLength k ↔
    t.height ≤ k ∧ WithinLength maxLength t.yield.length := by
  rw [treesWithin, List.mem_filter, mem_forests_iff, decide_eq_true_iff]

theorem mem_treesOfHeight : t ∈ treesOfHeight g maxLength k ↔
    t.height = k ∧ WithinLength maxLength t.yield.length := by
  rw [treesOfHeight, List.mem_filter, mem_treesWithin, decide_eq_true_iff]
  constructor
  · rintro ⟨⟨-, hlength⟩, heq⟩
    exact ⟨heq, hlength⟩
  · rintro ⟨heq, hlength⟩
    exact ⟨⟨Nat.le_of_eq heq, hlength⟩, heq⟩

theorem treesUpTo_succ (g : Grammar) (maxLength : Option Nat) (k : Nat) :
    treesUpTo g maxLength (k + 1) = treesUpTo g maxLength k ++ treesOfHeight g maxLength (k + 1) := by
  rw [treesUpTo, treesUpTo, List.range'_1_concat, List.flatMap_append, List.flatMap_singleton,
    Nat.add_comm 1 k]

theorem mem_treesUpTo : t ∈ treesUpTo g maxLength k ↔
    t.height ≤ k ∧ WithinLength maxLength t.yield.length := by
  simp only [treesUpTo, List.mem_flatMap, List.mem_range'_1, mem_treesOfHeight]
  constructor
  · rintro ⟨h, hh, rfl, hlength⟩
    exact ⟨by omega, hlength⟩
  · rintro ⟨hle, hlength⟩
    have hpos := t.height_pos
    exact ⟨t.height, by omega, rfl, hlength⟩

theorem nodup_treesWithin (g : Grammar) (maxLength : Option Nat) (k : Nat) :
    (treesWithin g maxLength k).Nodup := (g.nodup_forests _ _).filter _

theorem nodup_treesUpTo (g : Grammar) (maxLength : Option Nat) (k : Nat) :
    (treesUpTo g maxLength k).Nodup := by
  rw [treesUpTo, List.nodup_flatMap]
  refine ⟨fun h _ ↦ (nodup_treesWithin g maxLength h).filter _, ?_⟩
  refine (List.nodup_range' 1).imp fun {h h'} hne ↦ List.disjoint_left.2 fun t ht ht' ↦ hne ?_
  exact (mem_treesOfHeight.1 ht).1.symm.trans (mem_treesOfHeight.1 ht').1

theorem treesUpTo_perm (g : Grammar) (maxLength : Option Nat) (k : Nat) :
    (treesUpTo g maxLength k).Perm (treesWithin g maxLength k) :=
  (List.perm_ext_iff_of_nodup (nodup_treesUpTo g maxLength k) (nodup_treesWithin g maxLength k)).2
    fun _ ↦ mem_treesUpTo.trans mem_treesWithin.symm

theorem treesUpTo_prefix {k' : Nat} (h : k ≤ k') :
    treesUpTo g maxLength k <+: treesUpTo g maxLength k' := by
  induction h with
  | refl => exact List.prefix_rfl
  | step _ ih =>
    rw [treesUpTo_succ]
    exact ih.trans (List.prefix_append _ _)

/-- What a level hands out are the trees of its height. -/
theorem handed_level (s : Derivations) (k : Nat) :
    s.handed (some (k + 1)) (k + 1) =
      (treesOfHeight s.grammar s.maxLength (k + 1)).map Forest.yield := by
  rw [handed, treesOfHeight, treesWithin, List.filter_filter]
  refine congrArg (List.map Forest.yield) (List.filter_congr fun t ht ↦ ?_)
  have hle := (mem_forests_iff t).1 ht
  have hpos := t.height_pos
  rw [hands, Bool.and_comm]
  refine congrArg (· && _) ?_
  simp only [modeAt, DepthMode.admits, decide_eq_decide]
  omega

end Trees

/-- What a number of steps hand out, each sample with the level at which it is handed out. -/
def journal : Nat → Derivations → List (Nat × Sample)
  | 0, _ => []
  | n + 1, d =>
    match step d with
    | .emit x next => (d.mode.level, x) :: journal n next
    | .skip next => journal n next
    | .done => []

section Journal

variable {d d' : Derivations} {x : Sample} {out : List Sample} {n : Nat}

theorem journal_emit (h : step d = .emit x d') :
    journal (n + 1) d = (d.mode.level, x) :: journal n d' := by rw [journal, h]

theorem journal_skip (h : step d = .skip d') : journal (n + 1) d = journal n d' := by
  rw [journal, h]

theorem journal_done (h : step d = .done) : journal n d = [] := by
  cases n with
  | zero => rfl
  | succ n => rw [journal, h]

/-- No step goes back to a lower level. -/
theorem Moves.level_le (h : Moves d d') : d.mode.level ≤ d'.mode.level := by
  cases h with
  | raise _ _ level => exact Nat.le_succ level
  | finish _ => exact Nat.le_refl _
  | @cut _ _ mode => cases mode <;> exact Nat.le_refl _
  | expand _ => exact Nat.le_refl _

theorem level_le_of_steps (h : Steps step d out d') : d.mode.level ≤ d'.mode.level :=
  invariant_of_moves (d.mode.level ≤ ·.mode.level) (fun _ _ hle hm ↦ Nat.le_trans hle hm.level_le) h
    (Nat.le_refl _)

theorem level_le_of_mem_journal {e : Nat × Sample} (h : e ∈ journal n d) : d.mode.level ≤ e.1 := by
  induction n generalizing d with
  | zero => simp [journal] at h
  | succ n ih =>
    cases hstep : step d with
    | emit x next =>
      rw [journal_emit hstep] at h
      rcases List.mem_cons.1 h with rfl | h
      · exact Nat.le_refl _
      · exact Nat.le_trans (moves_of_emit hstep).level_le (ih h)
    | skip next =>
      rw [journal_skip hstep] at h
      exact Nat.le_trans (moves_of_skip hstep).level_le (ih h)
    | done =>
      rw [journal_done hstep] at h
      simp at h

/-- A run that stays at one level writes that level beside all that it hands out. -/
theorem exists_journal (h : Steps step d out d') (hlevel : d'.mode.level = d.mode.level) :
    ∃ m, ∀ n, journal (m + n) d = out.map (d.mode.level, ·) ++ journal n d' := by
  induction h with
  | zero => exact ⟨0, fun n ↦ by rw [Nat.zero_add]; rfl⟩
  | skip h hrest ih =>
    have hle := (moves_of_skip h).level_le
    have heq := Nat.le_antisymm hle (hlevel ▸ level_le_of_steps hrest)
    obtain ⟨m, hm⟩ := ih (hlevel.trans heq)
    refine ⟨m + 1, fun n ↦ ?_⟩
    rw [Nat.add_right_comm, journal_skip h, hm, heq]
  | emit h hrest ih =>
    have hle := (moves_of_emit h).level_le
    have heq := Nat.le_antisymm hle (hlevel ▸ level_le_of_steps hrest)
    obtain ⟨m, hm⟩ := ih (hlevel.trans heq)
    refine ⟨m + 1, fun n ↦ ?_⟩
    rw [Nat.add_right_comm, journal_emit h, hm, List.map_cons, List.cons_append, heq]

end Journal

section Levels

variable {g : Grammar} {maxLength limit : Option Nat} {k j : Nat} {cut : Bool}

/-- The enumeration without a depth bound at a level. -/
abbrev atLevel (g : Grammar) (maxLength : Option Nat) (level : Nat) (cut : Bool)
    (stack : List Frame) : Derivations :=
  ⟨g, maxLength, .deepening level cut, stack⟩

/-- The levels up to `k` have been worked off, of which `j` was the last that was entered. -/
structure LevelsDone (g : Grammar) (maxLength : Option Nat) (k j : Nat) (cut : Bool) : Prop where
  le : j ≤ k
  eq_of_cut : cut = true → j = k
  /-- A branch has been cut short just if there is a tree that is higher. -/
  cut_iff : cut = true ↔ ∃ t : g.Tree, k < t.height ∧ WithinLength maxLength t.yield.length
  entered : ∃ before out,
    Steps step (ofGrammar g none maxLength) before
      (atLevel g maxLength j false (seed g maxLength j)) ∧
    Steps step (atLevel g maxLength j false (seed g maxLength j)) out
      (atLevel g maxLength j cut [])
  steps : Steps step (ofGrammar g none maxLength) ((treesUpTo g maxLength k).map Forest.yield)
    (atLevel g maxLength j cut [])
  journal : ∃ m, ∀ n, journal (m + n) (ofGrammar g none maxLength) =
    (treesUpTo g maxLength k).map (fun t ↦ (t.height, t.yield)) ++
      journal n (atLevel g maxLength j cut [])

/-- A level that has been entered is worked off, or the limit is passed on the way. -/
theorem exists_levelsDone_of_entered (hg : g.WellFormed)
    (hmod : (ofGrammar g none maxLength).ModerateUntil limit (k + 1))
    (hsteps : Steps step (ofGrammar g none maxLength) ((treesUpTo g maxLength k).map Forest.yield)
      (atLevel g maxLength (k + 1) false (seed g maxLength (k + 1))))
    (hjournal : ∃ m, ∀ n, journal (m + n) (ofGrammar g none maxLength) =
      (treesUpTo g maxLength k).map (fun t ↦ (t.height, t.yield)) ++
        journal n (atLevel g maxLength (k + 1) false (seed g maxLength (k + 1)))) :
    (∃ cut, LevelsDone g maxLength (k + 1) (k + 1) cut) ∨
    ∃ first rest d, (treesUpTo g maxLength (k + 1)).map Forest.yield = first ++ rest ∧
      Steps step (ofGrammar g none maxLength) first d ∧ Passed limit first.length := by
  have hlevel := workedOff_seed (some (k + 1)) hg hmod (Nat.le_refl _) (k + 1) false [] _
    (by rwa [List.append_nil])
  rw [handed_level, List.append_nil] at hlevel
  obtain ⟨cut, hcut, hrun⟩ | ⟨first, rest, d, hout, hrun, hpassed⟩ := hlevel
  · refine .inl ⟨cut, Nat.le_refl _, fun _ ↦ rfl, hcut.trans (or_iff_right Bool.false_ne_true),
      ⟨_, _, hsteps, hrun⟩, ?_, ?_⟩
    · rw [treesUpTo_succ, List.map_append]
      exact hsteps.trans hrun
    · obtain ⟨m, hm⟩ := hjournal
      obtain ⟨m', hm'⟩ := exists_journal hrun rfl
      have hheight : (treesOfHeight g maxLength (k + 1)).map (fun t ↦ (t.height, t.yield)) =
          ((treesOfHeight g maxLength (k + 1)).map Forest.yield).map (k + 1, ·) := by
        rw [List.map_map]
        refine List.map_congr_left fun t ht ↦ ?_
        rw [(mem_treesOfHeight.1 ht).1, Function.comp_apply]
      refine ⟨m + m', fun n ↦ ?_⟩
      rw [Nat.add_assoc, hm, treesUpTo_succ, List.map_append, List.append_assoc, hheight]
      exact congrArg (_ ++ ·) (hm' n)
  · refine .inr ⟨_, rest, d, ?_, hsteps.trans hrun, hpassed⟩
    rw [treesUpTo_succ, List.map_append, List.append_assoc]
    exact congrArg (_ ++ ·) hout

theorem step_atLevel_cut (g : Grammar) (maxLength : Option Nat) (k : Nat) :
    step (atLevel g maxLength k true []) =
      .skip (atLevel g maxLength (k + 1) false (seed g maxLength (k + 1))) := rfl

theorem step_atLevel_done (g : Grammar) (maxLength : Option Nat) (k : Nat) :
    step (atLevel g maxLength k false []) = .done := rfl

/-- The levels up to any one are worked off in turn, or the limit is passed on the way. -/
theorem exists_levelsDone (hg : g.WellFormed)
    (hmod : (ofGrammar g none maxLength).ModerateUntil limit (k + 1)) :
    (∃ j cut, LevelsDone g maxLength (k + 1) j cut) ∨
    ∃ first rest d, (treesUpTo g maxLength (k + 1)).map Forest.yield = first ++ rest ∧
      Steps step (ofGrammar g none maxLength) first d ∧ Passed limit first.length := by
  induction k with
  | zero =>
    obtain ⟨cut, hdone⟩ | hpassed := exists_levelsDone_of_entered hg hmod (.zero _)
      ⟨0, fun n ↦ by rw [Nat.zero_add]; rfl⟩
    · exact .inl ⟨_, cut, hdone⟩
    · exact .inr hpassed
  | succ k ih =>
    obtain ⟨j, cut, hdone⟩ | ⟨first, rest, d, hout, hrun, hpassed⟩ := ih (hmod.mono (Nat.le_succ _))
    · cases cut with
      | true =>
        obtain rfl := hdone.eq_of_cut rfl
        obtain ⟨m, hm⟩ := hdone.journal
        have hsteps := hdone.steps.trans (.one_skip (step_atLevel_cut _ _ _))
        rw [List.append_nil] at hsteps
        obtain ⟨cut, hdone⟩ | hpassed := exists_levelsDone_of_entered hg hmod hsteps
          ⟨m + 1, fun n ↦ by
            rw [Nat.add_assoc, Nat.add_comm 1, hm, journal_skip (step_atLevel_cut _ _ _)]⟩
        · exact .inl ⟨_, cut, hdone⟩
        · exact .inr hpassed
      | false =>
        have hnone (t : g.Tree) (hlt : k + 1 < t.height) :
            ¬ WithinLength maxLength t.yield.length := fun hlength ↦
          Bool.noConfusion (hdone.cut_iff.2 ⟨t, hlt, hlength⟩)
        have hnil : treesOfHeight g maxLength (k + 1 + 1) = [] := by
          refine List.eq_nil_iff_forall_not_mem.2 fun t ht ↦ ?_
          obtain ⟨hheight, hlength⟩ := mem_treesOfHeight.1 ht
          exact hnone t (by omega) hlength
        have htrees : treesUpTo g maxLength (k + 1 + 1) = treesUpTo g maxLength (k + 1) := by
          rw [treesUpTo_succ, hnil, List.append_nil]
        refine .inl ⟨j, false, Nat.le_succ_of_le hdone.le, Bool.noConfusion, ?_, hdone.entered, ?_, ?_⟩
        · rw [Bool.false_eq_true, false_iff]
          rintro ⟨t, hlt, hlength⟩
          exact hnone t (by omega) hlength
        · rw [htrees]
          exact hdone.steps
        · rw [htrees]
          exact hdone.journal
    · refine .inr ⟨first, rest ++ (treesOfHeight g maxLength (k + 1 + 1)).map Forest.yield, d, ?_,
        hrun, hpassed⟩
      rw [treesUpTo_succ, List.map_append, hout, List.append_assoc]

/-- Without a limit the levels are all worked off. -/
theorem levelsDone (hg : g.WellFormed) (hmod : (ofGrammar g none maxLength).Moderate (k + 1)) :
    ∃ j cut, LevelsDone g maxLength (k + 1) j cut := by
  refine (exists_levelsDone hg (hmod.moderateUntil none)).resolve_right ?_
  rintro ⟨_, _, _, _, _, hpassed⟩
  exact not_passed_none _ hpassed

theorem handsOut_deepening (hg : g.WellFormed) {t : g.Tree}
    (hmod : (ofGrammar g none maxLength).Moderate t.height)
    (ht : WithinLength maxLength t.yield.length) :
    HandsOut step (ofGrammar g none maxLength) t.yield := by
  obtain ⟨k, hk⟩ := Nat.exists_eq_succ_of_ne_zero (Nat.ne_of_gt t.height_pos)
  rw [hk] at hmod
  obtain ⟨j, cut, hdone⟩ := levelsDone hg hmod
  exact handsOut_iff.2 ⟨_, _, hdone.steps,
    List.mem_map_of_mem (mem_treesUpTo.2 ⟨Nat.le_of_eq hk, ht⟩)⟩

end Levels

end LangBench.Derivations
