import LangBench.Proofs.Grammar.WorkedOff

/-!
The start is worked off by handing out what its trees yield: with a depth bound all trees within it,
at a level those that are as high as the level.
-/

namespace LangBench.Derivations

open Grammar

variable {s : Derivations} {limit level : Option Nat} {h : Nat}

instance (maxLength : Option Nat) (n : Nat) : Decidable (WithinLength maxLength n) :=
  inferInstanceAs (Decidable (∀ m ∈ maxLength, n ≤ m))

theorem admits_modeAt (cut : Bool) (minBudget : Nat) :
    (modeAt level cut).admits minBudget = (modeAt level false).admits minBudget := by
  cases level <;> rfl

theorem workedOff_complete (s : Derivations) (limit level : Option Nat) (output : List Symbol)
    (minBudget : Nat) :
    WorkedOff s limit level [frameOf s.grammar output [] minBudget]
      (if (modeAt level false).admits minBudget then [output.reverse] else []) False := by
  intro c stack _ _
  refine .inl ⟨c, by simp, ?_⟩
  split
  · next hadmits =>
    refine .one_emit ?_
    simp [step, working, frameOf, admits_modeAt c, hadmits]
  · next hadmits =>
    refine .one_skip ?_
    simp [step, working, frameOf, admits_modeAt c, hadmits]

/-- Whether what a tree of the start yields is handed out when it is the outcome of a budget: it has
to be short enough, and at a level the tree has to use all of the budget. -/
def hands (s : Derivations) (level : Option Nat) (budget : Nat) (t : s.grammar.Tree) : Bool :=
  WithinLength s.maxLength t.yield.length &&
    (modeAt level false).admits (min budget (budget + 1 - t.height))

def handed (s : Derivations) (level : Option Nat) (budget : Nat) : List Sample :=
  ((s.grammar.forests budget [.nonterminal s.grammar.start]).filter (s.hands level budget)).map
    Forest.yield

theorem map_filter_eq_flatMap {α β : Type} (l : List α) (p : α → Bool) (f : α → β) :
    (l.filter p).map f = l.flatMap fun x ↦ if p x then [f x] else [] := by
  induction l with
  | nil => rfl
  | cons x l ih => cases hx : p x <;> simp [hx, ih]

theorem handed_continued (s : Derivations) (limit level : Option Nat) (budget : Nat) :
    Continued s limit level [] [] budget budget
      (fun t : s.grammar.Tree ↦ if s.hands level budget t then [t.yield] else [])
      (fun _ ↦ False) where
  workedOff t _ hroom := by
    have hlength : WithinLength s.maxLength t.yield.length := by simpa [Room] using hroom
    refine (workedOff_complete s limit level _ _).congr ?_ Iff.rfl
    simp [hands, hlength]
  nothing t hroom := by
    have hlength : ¬ WithinLength s.maxLength t.yield.length := by simpa [Room] using hroom
    simp [hands, hlength]

variable (level) in
/-- The start is worked off by handing out its trees within the budget. A branch is cut short just
if there is a higher tree that yields something short enough. -/
theorem workedOff_seed (hg : s.grammar.WellFormed) (hmod : s.ModerateUntil limit h)
    (hlevel : level.getD 0 ≤ h) (budget : Nat) :
    WorkedOff s limit level (seed s.grammar s.maxLength budget) (s.handed level budget)
      (∃ t : s.grammar.Tree, budget < t.height ∧ WithinLength s.maxLength t.yield.length) := by
  have hseed : seed s.grammar s.maxLength budget =
      [frameOf s.grammar [] [(.nonterminal s.grammar.start, budget)] budget].filter
        (fits s.maxLength) := rfl
  have hroom : s.Room [] ([Item.nonterminal s.grammar.start].map (fun x ↦ (x, budget)) ++ []) 0 ↔
      s.Room [] [] (s.grammar.leastSum [.nonterminal s.grammar.start]) := by
    rw [room_budgeted, Nat.zero_add]
  have hframe : fits s.maxLength
      (frameOf s.grammar [] [(.nonterminal s.grammar.start, budget)] budget) = true ↔
      s.grammar.leastSum [.nonterminal s.grammar.start] ≠ unproductive ∧
        s.Room [] [] (s.grammar.leastSum [.nonterminal s.grammar.start]) :=
    fits_frameOf.trans (and_congr_right fun _ ↦ hroom)
  have hcut : s.CutShort [] [] budget (fun _ : s.grammar.Tree ↦ False) ↔
      ∃ t : s.grammar.Tree, budget < t.height ∧ WithinLength s.maxLength t.yield.length := by
    simp [CutShort, Room]
  rw [hseed, handed, map_filter_eq_flatMap]
  by_cases hfits : fits s.maxLength
      (frameOf s.grammar [] [(.nonterminal s.grammar.start, budget)] budget) = true
  · obtain ⟨hne, hroom⟩ := hframe.1 hfits
    obtain ⟨w, ⟨t, -⟩, -⟩ := s.grammar.attained_minYields s.grammar.start hne
    rw [List.filter_cons_of_pos hfits]
    exact (rowWorkedOff hg hmod hlevel budget _ [] [] budget _ _
      (s.handed_continued limit level budget) (hg.leastSum_lt t hmod.start) hroom (Nat.le_succ _)).congr
      rfl hcut
  · have hnot (t : s.grammar.Tree) : ¬ WithinLength s.maxLength t.yield.length := fun hlength ↦ by
      refine hfits (hframe.2 ⟨Nat.ne_of_lt (hg.leastSum_lt t hmod.start), ?_⟩)
      exact Room.mono (n := t.yield.length) (by simpa [Room] using hlength) (hg.leastSum_le t)
    rw [List.filter_cons_of_neg hfits]
    refine WorkedOff.nil.congr (List.flatMap_eq_nil_iff.2 fun t _ ↦ ?_).symm ?_
    · simp [hands, hnot t]
    · simp [hnot]

/-- With a depth bound the enumeration lists what the trees within it yield, as far as it is short
enough. -/
theorem lists_bounded {g : Grammar} {maxLength : Option Nat} (hg : g.WellFormed) {depth : Nat}
    (hmod : (ofGrammar g (some depth) maxLength).Moderate h) :
    Lists step (ofGrammar g (some depth) maxLength)
      (((g.forests depth [.nonterminal g.start]).filter fun t ↦
        WithinLength maxLength t.yield.length).map Forest.yield) := by
  have hhanded : (ofGrammar g (some depth) maxLength).handed none depth =
      ((g.forests depth [.nonterminal g.start]).filter fun t ↦
        WithinLength maxLength t.yield.length).map Forest.yield :=
    congrArg (List.map Forest.yield) (List.filter_congr fun _ _ ↦ Bool.and_true _)
  rw [← hhanded]
  exact (workedOff_seed none hg (hmod.moderateUntil none) (Nat.zero_le _) depth).lists

end LangBench.Derivations
