import LangBench.Proofs.Grammar.Levels

/-!
The words of the trees within a depth bound are listed, each as often as it has trees.

Nothing is asked of the sums of least lengths that come up in the run. A derivation may be dropped
because its sum is a number that does not count; but then no word comes of it that is shorter than
this number. Whatever is dropped, the run comes to its end.
-/

namespace LangBench

namespace Grammar

variable {g : Grammar} {budget n : Nat} {x : Item} {row : List Item} {pending : List (Item × Nat)}

/-- The words that a row yields by its trees within a budget, each once for every tree. -/
def wordsWithin (g : Grammar) (budget : Nat) (row : List Item) : List Sample :=
  (g.forests budget row).map Forest.yield

@[simp] theorem wordsWithin_nil : g.wordsWithin budget [] = [[]] := by
  rw [wordsWithin, forests_nil]
  rfl

@[simp] theorem wordsWithin_zero_cons : g.wordsWithin 0 (x :: row) = [] := by
  rw [wordsWithin, forests_zero_cons]
  rfl

theorem wordsWithin_terminal_cons (x : Symbol) :
    g.wordsWithin (budget + 1) (.terminal x :: row) =
      (g.wordsWithin (budget + 1) row).map (x :: ·) := by
  rw [wordsWithin, forests, List.map_map, wordsWithin, List.map_map]
  rfl

theorem wordsWithin_nonterminal_cons (n : Nat) :
    g.wordsWithin (budget + 1) (.nonterminal n :: row) =
      (g.alternativesOf n).flatMap fun alt ↦ (g.wordsWithin budget alt).flatMap fun u ↦
        (g.wordsWithin (budget + 1) row).map (u ++ ·) := by
  rw [← flatMap_finRange_get]
  simp only [wordsWithin, forests, List.map_flatMap, List.flatMap_map, List.map_map]
  rfl

theorem wordsWithin_cons (budget : Nat) (x : Item) (row : List Item) :
    g.wordsWithin budget (x :: row) =
      (g.wordsWithin budget [x]).flatMap fun u ↦ (g.wordsWithin budget row).map (u ++ ·) := by
  cases budget with
  | zero => simp
  | succ budget =>
    cases x with
    | terminal x => simp [wordsWithin_terminal_cons]
    | nonterminal n => simp [wordsWithin_nonterminal_cons, List.flatMap_assoc]

theorem mem_wordsWithin_iff {w : Sample} :
    w ∈ g.wordsWithin budget row ↔ ∃ f : g.Forest row, f.height ≤ budget ∧ f.yield = w := by
  simp [wordsWithin, mem_forests_iff]

theorem yields_iff_mem_wordsWithin {w : Sample} :
    g.Yields row w ↔ ∃ budget, w ∈ g.wordsWithin budget row := by
  simp only [mem_wordsWithin_iff]
  constructor
  · intro h
    obtain ⟨f, hf⟩ := h
    exact ⟨f.height, f, Nat.le_refl _, hf⟩
  · intro h
    obtain ⟨_, f, -, hf⟩ := h
    exact ⟨f, hf⟩

/-- What pending items yield by trees within the budget of each of them. -/
def endings (g : Grammar) : List (Item × Nat) → List Sample
  | [] => [[]]
  | (x, budget) :: pending =>
    (g.wordsWithin budget [x]).flatMap fun u ↦ (g.endings pending).map (u ++ ·)

theorem endings_budgeted (row : List Item) (budget : Nat) (pending : List (Item × Nat)) :
    g.endings (row.map (·, budget) ++ pending) =
      (g.wordsWithin budget row).flatMap fun u ↦ (g.endings pending).map (u ++ ·) := by
  induction row with
  | nil => simp
  | cons x row ih =>
    rw [List.map_cons, List.cons_append, endings, ih, wordsWithin_cons budget x row,
      List.flatMap_assoc]
    simp [List.map_flatMap, List.flatMap_map, Function.comp_def]

@[simp] theorem endings_zero_cons : g.endings ((x, 0) :: pending) = [] := by
  simp [endings]

theorem endings_terminal_cons (x : Symbol) :
    g.endings ((.terminal x, budget + 1) :: pending) = (g.endings pending).map (x :: ·) := by
  simp [endings, wordsWithin_terminal_cons]

theorem endings_nonterminal_cons (n : Nat) :
    g.endings ((.nonterminal n, budget + 1) :: pending) =
      (g.alternativesOf n).flatMap fun alt ↦ g.endings (alt.map (·, budget) ++ pending) := by
  simp [endings, wordsWithin_nonterminal_cons, endings_budgeted, List.flatMap_assoc]

theorem WellFormed.leastSum_le_of_mem_endings (hg : g.WellFormed) {w : Sample}
    (h : w ∈ g.endings pending) : g.leastSum (pending.map Prod.fst) ≤ w.length := by
  induction pending generalizing w with
  | nil => exact Nat.zero_le _
  | cons p pending ih =>
    obtain ⟨u, hu, h⟩ := List.mem_flatMap.1 h
    obtain ⟨v, hv, rfl⟩ := List.mem_map.1 h
    obtain ⟨f, -, rfl⟩ := mem_wordsWithin_iff.1 hu
    have hitem : g.minYield p.1 + 0 ≤ f.yield.length := hg.leastSum_le f
    rw [List.map_cons, leastSum_cons, List.length_append]
    have := ih hv
    omega

end Grammar

namespace Derivations

open Grammar

/-- A property of pending items that expansion keeps, and under which no derivation that leads to a
word is dropped for the sum of its least lengths. -/
structure Sparing (g : Grammar) (w : Sample) (S : List (Item × Nat) → Prop) : Prop where
  counts : ∀ pending, S pending → g.leastSum (pending.map Prod.fst) ≤ w.length →
    g.leastSum (pending.map Prod.fst) < unproductive
  terminal : ∀ x budget pending, S ((.terminal x, budget + 1) :: pending) → S pending
  nonterminal : ∀ n budget pending, S ((.nonterminal n, budget + 1) :: pending) →
    ∀ alt ∈ g.alternativesOf n, S (alt.map (·, budget) ++ pending)

theorem sparing_of_short (g : Grammar) {w : Sample} (h : w.length < unproductive) :
    Sparing g w fun _ ↦ True :=
  ⟨fun _ _ hle ↦ Nat.lt_of_le_of_lt hle h, fun _ _ _ _ ↦ trivial, fun _ _ _ _ _ _ ↦ trivial⟩

variable {s : Derivations} {w : Sample} {S : List (Item × Nat) → Prop}
  {output : List Symbol} {pending : List (Item × Nat)} {minBudget budget : Nat}

/-- Derivations are worked off, and that hands out a word as often as it is in a list. -/
def HandsOutAsIn (s : Derivations) (w : Sample) (frames : List Frame) (words : List Sample) :
    Prop :=
  ∃ out, WorkedOff s none none frames out False ∧ out.count w = words.count w

/-- Derivations with the same pending items hand out a word as often as they lead to it. -/
def Counted (s : Derivations) (w : Sample) (pending : List (Item × Nat)) : Prop :=
  ∀ output minBudget, HandsOutAsIn s w [frameOf s.grammar output pending minBudget]
    ((s.grammar.endings pending).map (output.reverse ++ ·))

theorem counted_cut (x : Item) : Counted s w ((x, 0) :: pending) := by
  intro output minBudget
  rw [endings_zero_cons]
  refine ⟨[], .of_skip [] (fun c stack ↦ ?_) .nil, rfl⟩
  simp [step, working, frameOf, modeAt, DepthMode.noteCut]

section Sparing

variable (hg : s.grammar.WellFormed) (hS : Sparing s.grammar w S)
  (hw : WithinLength s.maxLength w.length)

include hg hS

theorem count_eq_zero_of_le (hpending : S pending)
    (h : unproductive ≤ s.grammar.leastSum (pending.map Prod.fst)) :
    ((s.grammar.endings pending).map (output.reverse ++ ·)).count w = 0 := by
  refine List.count_eq_zero.2 fun hmem ↦ ?_
  obtain ⟨u, hu, rfl⟩ := List.mem_map.1 hmem
  have hle := hg.leastSum_le_of_mem_endings hu
  refine Nat.not_lt_of_le h (hS.counts pending hpending (hle.trans ?_))
  rw [List.length_append]
  exact Nat.le_add_left _ _

include hw

theorem count_eq_zero_of_not_fits (hpending : S pending)
    (h : ¬ fits s.maxLength (frameOf s.grammar output pending minBudget) = true) :
    ((s.grammar.endings pending).map (output.reverse ++ ·)).count w = 0 := by
  by_cases hsum : unproductive ≤ s.grammar.leastSum (pending.map Prod.fst)
  · exact count_eq_zero_of_le hg hS hpending hsum
  · refine List.count_eq_zero.2 fun hmem ↦ h ?_
    obtain ⟨u, hu, rfl⟩ := List.mem_map.1 hmem
    have hle := hg.leastSum_le_of_mem_endings hu
    rw [List.length_append, List.length_reverse] at hw
    exact fits_frameOf.2 ⟨by omega, hw.mono (by omega)⟩

theorem Counted.filter (h : Counted s w pending) (hpending : S pending) (output : List Symbol)
    (minBudget : Nat) :
    HandsOutAsIn s w
      ([frameOf s.grammar output pending minBudget].filter (fits s.maxLength))
      ((s.grammar.endings pending).map (output.reverse ++ ·)) := by
  by_cases hfits : fits s.maxLength (frameOf s.grammar output pending minBudget) = true
  · rw [List.filter_cons_of_pos hfits]
    exact h output minBudget
  · rw [List.filter_cons_of_neg hfits]
    exact ⟨[], .nil, (count_eq_zero_of_not_fits hg hS hw hpending hfits).symm⟩

theorem Counted.branch {row : List Item} (h : Counted s w (row.map (·, budget) ++ pending))
    (hpending : S (row.map (·, budget) ++ pending)) (output : List Symbol) (minBudget : Nat) :
    HandsOutAsIn s w (s.branch output row budget pending minBudget)
      ((s.grammar.endings (row.map (·, budget) ++ pending)).map (output.reverse ++ ·)) := by
  rw [Derivations.branch]
  split
  · next hrow =>
    -- the row alone is too long to count
    refine ⟨[], .nil, (count_eq_zero_of_le hg hS hpending ?_).symm⟩
    rw [leastSum_budgeted]
    rw [rowYield_eq] at hrow
    omega
  · exact h.filter hg hS hw hpending output minBudget

theorem counted_terminal (x : Symbol) (hpending : S pending) (h : Counted s w pending) :
    Counted s w ((.terminal x, budget + 1) :: pending) := by
  intro output minBudget
  obtain ⟨out, hout, hcount⟩ := h.filter hg hS hw hpending (x :: output)
    (min minBudget (budget + 1))
  refine ⟨out, .of_skip _ (fun c stack ↦ step_item c stack _ budget output pending minBudget) hout,
    hcount.trans ?_⟩
  simp [endings_terminal_cons, Function.comp_def]

theorem counted_nonterminal (n : Nat)
    (hpending : ∀ alt ∈ s.grammar.alternativesOf n, S (alt.map (·, budget) ++ pending))
    (h : ∀ alt ∈ s.grammar.alternativesOf n, Counted s w (alt.map (·, budget) ++ pending)) :
    Counted s w ((.nonterminal n, budget + 1) :: pending) := by
  intro output minBudget
  choose out hout hcount using fun i : Fin (s.grammar.alternativesOf n).length ↦
    (h _ (List.get_mem _ i)).branch hg hS hw (hpending _ (List.get_mem _ i)) output
      (min minBudget (budget + 1))
  have hbranches := WorkedOff.flatMap (List.finRange _) fun i _ ↦ hout i
  refine ⟨_, .of_skip _ (fun c stack ↦ ?_) (hbranches.congr rfl (by simp)), ?_⟩
  · rw [step_item, expand_nonterminal]
  · rw [endings_nonterminal_cons, ← flatMap_finRange_get (s.grammar.alternativesOf n),
      List.map_flatMap, List.count_flatMap, List.count_flatMap]
    exact congrArg List.sum (List.map_congr_left fun i _ ↦ hcount i)

theorem counted : ∀ pending, S pending → Counted s w pending := by
  refine pending_induction (g := s.grammar) ?_ ?_ ?_ ?_
  · exact fun _ output minBudget ↦ ⟨_, workedOff_complete s none none output minBudget, by
      simp [endings, modeAt, DepthMode.admits]⟩
  · exact fun x pending _ ↦ counted_cut x
  · intro x budget pending ih hpending
    have hrest := hS.terminal x budget pending hpending
    exact counted_terminal hg hS hw x hrest (ih hrest)
  · intro n budget pending ih hpending
    have hrow := hS.nonterminal n budget pending hpending
    exact counted_nonterminal hg hS hw n hrow fun alt halt ↦ ih alt halt (hrow alt halt)

end Sparing

variable {g : Grammar} {depth : Nat} {maxLength : Option Nat} {samples : List Sample}

/-- With a depth bound the enumeration comes to its end, and has handed out a word that is short
enough as often as it has trees within the bound. -/
theorem exists_lists_bounded (hg : g.WellFormed) (hS : Sparing g w S)
    (hstart : S [(.nonterminal g.start, depth)]) (hw : WithinLength maxLength w.length) :
    ∃ samples, Lists step (ofGrammar g (some depth) maxLength) samples ∧
      samples.count w = (g.wordsWithin depth [.nonterminal g.start]).count w := by
  obtain ⟨out, hout, hcount⟩ := (counted (s := ofGrammar g (some depth) maxLength) hg hS hw _
    hstart).filter hg hS hw hstart [] depth
  refine ⟨out, WorkedOff.lists hout, hcount.trans ?_⟩
  simp [endings, ofGrammar]

theorem exists_lists_of_bound (hg : g.WellFormed) (depth : Nat) (maxLength : Option Nat) :
    ∃ samples, Lists step (ofGrammar g (some depth) maxLength) samples := by
  have hempty : WithinLength maxLength ([] : Sample).length := fun _ _ ↦ Nat.zero_le _
  obtain ⟨samples, hsamples, -⟩ :
      ∃ samples, Lists step (ofGrammar g (some depth) maxLength) samples ∧ _ :=
    exists_lists_bounded hg (sparing_of_short g (by decide)) trivial hempty
  exact ⟨samples, hsamples⟩

theorem count_of_lists_bounded (hg : g.WellFormed) (hS : Sparing g w S)
    (hstart : S [(.nonterminal g.start, depth)])
    (h : Lists step (ofGrammar g (some depth) maxLength) samples) :
    samples.count w = if WithinLength maxLength w.length then
      (g.wordsWithin depth [.nonterminal g.start]).count w else 0 := by
  split
  · next hw =>
    obtain ⟨samples', h', hcount⟩ := exists_lists_bounded hg hS hstart hw
    rw [h.unique h', hcount]
  · next hw =>
    exact List.count_eq_zero.2 fun hmem ↦ hw (yields_of_handsOut (h.mem_iff.2 hmem)).2

end Derivations

end LangBench
