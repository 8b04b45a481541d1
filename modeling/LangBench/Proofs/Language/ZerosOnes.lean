import LangBench.Proofs.Benchmark.Stock
import LangBench.Proofs.Grammar.Words
import Mathlib

/-!
The language `toy_cfg` is that of the words of some zeros and as many ones. Its depth bound is a
bound on their number, and as the grammar tries first to go on, words with more of them come first.
-/

namespace LangBench

/-- Some zeros and as many ones. -/
def zerosOnes (n : Nat) : Sample := List.replicate n 0 ++ List.replicate n 1

theorem zerosOnes_zero : zerosOnes 0 = [] := rfl

theorem zerosOnes_succ (n : Nat) : zerosOnes (n + 1) = 0 :: (zerosOnes n ++ [1]) := by
  rw [zerosOnes, zerosOnes, List.replicate_succ, List.replicate_succ', List.cons_append,
    List.append_assoc]

namespace Grammar

def enclosed : List Item := [.terminal 0, .nonterminal 0, .terminal 1]

/-- The grammar of some zeros and as many ones. -/
structure IsZerosOnes (g : Grammar) : Prop where
  wellFormed : g.WellFormed
  productions_eq : g.productions = #[⟨0, enclosed⟩, ⟨0, []⟩]

namespace IsZerosOnes

variable {g : Grammar}

theorem alternativesOf_start (hg : g.IsZerosOnes) : g.alternativesOf 0 = [enclosed, []] := by
  simp only [alternativesOf, productionsOf_eq, hg.productions_eq]
  rfl

theorem minYield_start (hg : g.IsZerosOnes) : g.minYield (.nonterminal 0) = 0 :=
  hg.wellFormed.minYield_eq_zero (by simp [hg.alternativesOf_start])

theorem leastSum_enclosed (hg : g.IsZerosOnes) : g.leastSum enclosed = 2 := by
  simp only [enclosed, leastSum_cons, leastSum_nil, hg.minYield_start]
  rfl

theorem wordsWithin_enclosed (budget : Nat) :
    g.wordsWithin budget enclosed =
      (g.wordsWithin budget [.nonterminal 0]).map fun u ↦ 0 :: (u ++ [1]) := by
  cases budget with
  | zero => simp [enclosed]
  | succ budget =>
    have hclose : g.wordsWithin (budget + 1) [.terminal 1] = [[1]] := by
      rw [wordsWithin_terminal_cons, wordsWithin_nil]
      rfl
    rw [enclosed, wordsWithin_terminal_cons, wordsWithin_cons, hclose]
    simp only [List.map_singleton]
    rw [← List.map_eq_flatMap, List.map_map]
    rfl

theorem wordsWithin_start (hg : g.IsZerosOnes) (depth : Nat) :
    g.wordsWithin depth [.nonterminal 0] = (List.range depth).reverse.map zerosOnes := by
  induction depth with
  | zero => exact wordsWithin_zero_cons
  | succ depth ih =>
    rw [wordsWithin_nonterminal_cons, hg.alternativesOf_start, List.range_succ_eq_map]
    simp [wordsWithin_enclosed, ih, zerosOnes_zero, zerosOnes_succ, Function.comp_def]

theorem accepts_iff (hg : g.IsZerosOnes) (maxDepth : Option Nat) (w : Sample) :
    (Cfg.mk g maxDepth).accepts w = true ↔ ∃ n, w = zerosOnes n := by
  rw [Cfg.accepts_iff hg.wellFormed, yields_iff_mem_wordsWithin]
  change (∃ depth, w ∈ g.wordsWithin depth [.nonterminal 0]) ↔ _
  simp only [hg.wordsWithin_start, List.mem_map, List.mem_reverse, List.mem_range]
  constructor
  · intro hex
    obtain ⟨_, n, -, rfl⟩ := hex
    exact ⟨n, rfl⟩
  · intro hex
    obtain ⟨n, rfl⟩ := hex
    exact ⟨n + 1, n, Nat.lt_succ_self n, rfl⟩

end IsZerosOnes

end Grammar

namespace Derivations

open Grammar

variable {s : Derivations} {output : List Symbol} {minBudget : Nat}

/-- Ones that are pending, each with a budget for it. -/
def closing (budgets : List Nat) : List (Item × Nat) := budgets.map fun b ↦ (.terminal 1, b + 1)

theorem leastSum_closing (g : Grammar) (budgets : List Nat) :
    g.leastSum ((closing budgets).map Prod.fst) = budgets.length := by
  induction budgets with
  | nil => rfl
  | cons b budgets ih =>
    have hcons : g.leastSum ((closing (b :: budgets)).map Prod.fst) =
        1 + g.leastSum ((closing budgets).map Prod.fst) := rfl
    rw [hcons, ih, List.length_cons, Nat.add_comm]

theorem workedOff_closing {budgets : List Nat} (hcounts : budgets.length < unproductive)
    (hlength : WithinLength s.maxLength (output.length + budgets.length)) :
    WorkedOff s none none [frameOf s.grammar output (closing budgets) minBudget]
      [output.reverse ++ List.replicate budgets.length 1] False := by
  induction budgets generalizing output minBudget with
  | nil =>
    refine (workedOff_complete s none none output minBudget).congr ?_ Iff.rfl
    simp [modeAt, DepthMode.admits]
  | cons b budgets ih =>
    rw [List.length_cons] at hcounts hlength
    have hrest : WorkedOff s none none
        [frameOf s.grammar (1 :: output) (closing budgets) (min minBudget (b + 1))] _ False :=
      ih (by omega) (hlength.mono (by rw [List.length_cons]; omega))
    have hfits : fits s.maxLength (frameOf s.grammar (1 :: output) (closing budgets)
        (min minBudget (b + 1))) = true := by
      rw [fits_frameOf, Room, leastSum_closing, List.length_cons]
      exact ⟨by omega, hlength.mono (by omega)⟩
    refine .of_skip _ (fun c stack ↦ ?_) (hrest.congr (by simp [List.replicate_succ]) Iff.rfl)
    exact (step_item c stack _ b output (closing budgets) minBudget).trans
      (congrArg (fun frames ↦ Step.skip (s.working none c (frames ++ stack)))
        (List.filter_cons_of_pos hfits))

/-- The words with at least `k` zeros that are listed with some more of depth. -/
def listedFrom (maxLength : Option Nat) (k budget : Nat) : List Sample :=
  ((List.range' k budget).reverse.filter fun n ↦
    n + 1 < unproductive ∧ WithinLength maxLength (2 * n)).map zerosOnes

theorem listedFrom_eq_nil {maxLength : Option Nat} {k budget : Nat}
    (h : ∀ n, k ≤ n → ¬ (n + 1 < unproductive ∧ WithinLength maxLength (2 * n))) :
    listedFrom maxLength k budget = [] := by
  rw [listedFrom, List.map_eq_nil_iff, List.filter_eq_nil_iff]
  intro n hn
  have hle := (List.mem_range'_1.1 (List.mem_reverse.1 hn)).1
  simpa using h n hle

theorem listedFrom_succ {maxLength : Option Nat} {k : Nat} (budget : Nat)
    (hcounts : k + 1 < unproductive) (hlength : WithinLength maxLength (2 * k)) :
    listedFrom maxLength k (budget + 1) = listedFrom maxLength (k + 1) budget ++ [zerosOnes k] := by
  simp [listedFrom, List.range'_succ, hcounts, hlength]

/-- A derivation that has put out some zeros and is still open in the middle, before the ones that
close them. -/
def opened (g : Grammar) (budgets : List Nat) (budget minBudget : Nat) : Frame :=
  frameOf g (List.replicate budgets.length 0) ((.nonterminal 0, budget) :: closing budgets) minBudget

section Open

variable {budgets : List Nat} {budget : Nat} (hg : s.grammar.IsZerosOnes)

include hg

theorem fits_opened (hcounts : budgets.length < unproductive) :
    fits s.maxLength (opened s.grammar budgets budget minBudget) = true ↔
      WithinLength s.maxLength (2 * budgets.length) := by
  rw [opened, fits_frameOf, Room, List.map_cons, leastSum_cons, hg.minYield_start, leastSum_closing,
    List.length_replicate, Nat.add_zero, Nat.zero_add, ← Nat.two_mul]
  exact and_iff_right (Nat.ne_of_lt hcounts)

theorem step_opened (hcounts : budgets.length < unproductive)
    (hlength : WithinLength s.maxLength (2 * budgets.length)) (c : Bool) (stack : List Frame) :
    step (s.working none c (opened s.grammar budgets (budget + 1) minBudget :: stack)) =
    .skip (s.working none c
      (s.branch (List.replicate budgets.length 0) enclosed budget (closing budgets)
          (min minBudget (budget + 1)) ++
        [frameOf s.grammar (List.replicate budgets.length 0) (closing budgets)
          (min minBudget (budget + 1))] ++ stack)) := by
  have hlast : s.branch (List.replicate budgets.length 0) [] budget (closing budgets)
      (min minBudget (budget + 1)) = [frameOf s.grammar (List.replicate budgets.length 0)
        (closing budgets) (min minBudget (budget + 1))] := by
    refine branch_eq_of_fits ?_ ?_
    · rwa [leastSum_nil, leastSum_closing, Nat.zero_add]
    · rwa [Room, leastSum_nil, leastSum_closing, List.length_replicate, Nat.add_zero, ← Nat.two_mul]
  rw [opened, step_item, expand_nonterminal, flatMap_finRange_get (s.grammar.alternativesOf 0)
    fun row ↦ s.branch _ row budget (closing budgets) (min minBudget (budget + 1)),
    hg.alternativesOf_start, ← hlast]
  simp

theorem workedOff_enclosed (hcounts : budgets.length + 1 < unproductive) (minBudget : Nat)
    (h : ∀ b minBudget, budget = b + 1 → (b :: budgets).length + 1 < unproductive →
      WorkedOff s none none
        ([opened s.grammar (b :: budgets) (b + 1) minBudget].filter (fits s.maxLength))
        (listedFrom s.maxLength (budgets.length + 1) (b + 1)) False) :
    WorkedOff s none none
      (s.branch (List.replicate budgets.length 0) enclosed budget (closing budgets) minBudget)
      (listedFrom s.maxLength (budgets.length + 1) budget) False := by
  have htwo : s.grammar.leastSum enclosed < unproductive := by
    rw [hg.leastSum_enclosed]
    decide
  rw [branch_eq_filter htwo]
  -- a zero is put out at once, and the one that closes it becomes pending
  by_cases hfits : fits s.maxLength (frameOf s.grammar (List.replicate budgets.length 0)
    (enclosed.map (fun x ↦ (x, budget)) ++ closing budgets) minBudget) = true
  · rw [List.filter_cons_of_pos hfits]
    rw [fits_frameOf, leastSum_budgeted, hg.leastSum_enclosed, leastSum_closing] at hfits
    have hmore : budgets.length + 1 + 1 < unproductive := by omega
    cases budget with
    | zero => exact .of_skip [] (fun c stack ↦ rfl) .nil
    | succ b =>
      refine .of_skip _ (fun c stack ↦ ?_) (h b (min minBudget (b + 1)) rfl hmore)
      exact step_item c stack (.terminal 0) b _ _ minBudget
  · rw [List.filter_cons_of_neg hfits, listedFrom_eq_nil]
    · exact .nil
    · intro n hn hlisted
      refine hfits ?_
      rw [fits_frameOf, Room, leastSum_budgeted, hg.leastSum_enclosed, leastSum_closing,
        List.length_replicate]
      exact ⟨by omega, hlisted.2.mono (by omega)⟩

theorem workedOff_opened (hcounts : budgets.length + 1 < unproductive) (minBudget : Nat) :
    WorkedOff s none none
      ([opened s.grammar budgets budget minBudget].filter (fits s.maxLength))
      (listedFrom s.maxLength budgets.length budget) False := by
  -- the branch that goes on comes first, so the words with more zeros do
  induction budget generalizing budgets minBudget with
  | zero =>
    by_cases hfits : fits s.maxLength (opened s.grammar budgets 0 minBudget) = true
    · rw [List.filter_cons_of_pos hfits]
      exact .of_skip [] (fun c stack ↦ rfl) .nil
    · rw [List.filter_cons_of_neg hfits]
      exact .nil
  | succ budget ih =>
    have hcounts' := Nat.lt_of_succ_lt hcounts
    by_cases hlength : WithinLength s.maxLength (2 * budgets.length)
    · rw [List.filter_cons_of_pos ((fits_opened hg hcounts').2 hlength),
        listedFrom_succ budget hcounts hlength]
      have hmore : WorkedOff s none none (s.branch (List.replicate budgets.length 0) enclosed budget
          (closing budgets) (min minBudget (budget + 1)))
          (listedFrom s.maxLength (budgets.length + 1) budget) False := by
        refine workedOff_enclosed hg hcounts _ fun b minBudget hb hcounts ↦ ?_
        subst hb
        exact ih hcounts minBudget
      have hlast : WorkedOff s none none [frameOf s.grammar (List.replicate budgets.length 0)
          (closing budgets) (min minBudget (budget + 1))] _ False :=
        workedOff_closing hcounts' (by rwa [List.length_replicate, ← Nat.two_mul])
      refine .of_skip _ (fun c stack ↦ step_opened hg hcounts' hlength c stack)
        ((hmore.append hlast).congr ?_ (by simp))
      simp [zerosOnes]
    · rw [List.filter_cons_of_neg fun h ↦ hlength ((fits_opened hg hcounts').1 h), listedFrom_eq_nil]
      · exact .nil
      · exact fun n hn h ↦ hlength (h.2.mono (by omega))

end Open

theorem listedFrom_zero {maxLength : Option Nat} {depth : Nat}
    (h : ∀ n < depth, WithinLength maxLength (2 * n) → n + 1 < unproductive) :
    listedFrom maxLength 0 depth =
      ((List.range depth).reverse.filter fun n ↦ WithinLength maxLength (2 * n)).map zerosOnes := by
  rw [listedFrom, ← List.range_eq_range']
  refine congrArg (List.map zerosOnes) (List.filter_congr fun n hn ↦ ?_)
  have hlt := List.mem_range.1 (List.mem_reverse.1 hn)
  exact decide_eq_decide.2 (and_iff_right_of_imp (h n hlt))

theorem lists_zerosOnes {g : Grammar} (hg : g.IsZerosOnes) (depth : Nat)
    (maxLength : Option Nat) :
    Lists step (ofGrammar g (some depth) maxLength) (listedFrom maxLength 0 depth) := by
  have hstart : WorkedOff (ofGrammar g (some depth) maxLength) none none
      ([opened g [] depth depth].filter (fits maxLength)) (listedFrom maxLength 0 depth) False :=
    workedOff_opened (s := ofGrammar g (some depth) maxLength) hg (by decide) depth
  exact hstart.lists

end Derivations

namespace Language

theorem exists_zerosOnes_grammar : ∃ g : Grammar, g.IsZerosOnes ∧
    ∀ (overrides : Params) (depth : Nat),
      (toyCfg.mergedParams overrides).nat "max_depth" = .ok depth →
        ∃ p, Registry.builtin.prepare "toy_cfg" overrides = .ok p ∧
          p.backend = Cfg.backend ⟨g, some depth⟩ := by
  obtain ⟨g, hparse, hproductions, hterminals⟩ : ∃ g,
      Grammar.parse? "S -> '0' S '1' | " (some ["0", "1"]) = .ok g ∧
      g.productions = #[⟨0, Grammar.enclosed⟩, ⟨0, []⟩] ∧
      g.terminalCount = 2 := ⟨_, by cbv, by cbv, by cbv⟩
  refine ⟨g, ⟨Grammar.wellFormed_of_parse? hparse, hproductions⟩, fun overrides depth hdepth ↦ ?_⟩
  obtain ⟨p, hp, hbackend⟩ := prepare_ofGrammar hparse (Nat.le_of_eq hterminals) hdepth
  exact ⟨p, Registry.prepare_eq_ok.2 ⟨toyCfg, by cbv, hp⟩, hbackend⟩

/-- Whatever its depth is set to, `toy_cfg` accepts the words of some zeros and as many ones. It
lists those that are short enough and have fewer zeros than the depth, each once, longer ones first.
While a word is built its ones are counted as pending, so that the bounds are to be numbers of 64
bits. -/
theorem toyCfg_lists_zeros_ones (overrides : Params) (depth : Nat)
    (hdepth : (toyCfg.mergedParams overrides).nat "max_depth" = .ok depth) :
    ∃ p, Registry.builtin.prepare "toy_cfg" overrides = .ok p ∧
      (∀ w, p.backend.accepts w = true ↔ ∃ n, w = zerosOnes n) ∧
      (∀ bound < 2 ^ 64, Lists Enumeration.step (p.backend.generate (some bound))
        (((List.range depth).reverse.filter fun n ↦ 2 * n ≤ bound).map zerosOnes)) ∧
      (depth < 2 ^ 64 - 1 → Lists Enumeration.step (p.backend.generate none)
        ((List.range depth).reverse.map zerosOnes)) := by
  obtain ⟨g, hg, hprepare⟩ := exists_zerosOnes_grammar
  obtain ⟨p, hp, hbackend⟩ := hprepare overrides depth hdepth
  have hlists (maxLength : Option Nat) : Lists Enumeration.step
      ((Cfg.backend ⟨g, some depth⟩).generate maxLength)
      (Derivations.listedFrom maxLength 0 depth) :=
    Lists.map (f := Enumeration.derivations) (fun _ ↦ rfl)
      (Derivations.lists_zerosOnes hg depth maxLength)
  refine ⟨p, hp, ?_⟩
  rw [hbackend]
  refine ⟨hg.accepts_iff _, fun bound hbound ↦ ?_, fun hsmall ↦ ?_⟩
  · have hshort := hlists (some bound)
    rw [Derivations.listedFrom_zero] at hshort
    · simpa [Derivations.WithinLength] using hshort
    · intro n _ hn
      have hle : 2 * n ≤ bound := hn bound rfl
      change n + 1 < 2 ^ 64 - 1
      omega
  · have hall := hlists none
    rw [Derivations.listedFrom_zero] at hall
    · simpa [Derivations.WithinLength] using hall
    · intro n hn _
      change n + 1 < 2 ^ 64 - 1
      omega

/-- At depth 3 there are no more than two zeros, but more of them are accepted. -/
theorem toyCfg_lists_zeros_ones_shallow :
    (toyCfg.mergedParams (.ofList [("max_depth", .ofNat 3)])).nat "max_depth" = .ok 3 ∧
    ∃ p, Registry.builtin.prepare "toy_cfg" (.ofList [("max_depth", .ofNat 3)]) = .ok p ∧
      p.backend.accepts [0, 0, 0, 1, 1, 1] = true ∧ p.backend.accepts [1, 0] ≠ true ∧
      Lists Enumeration.step (p.backend.generate none) [[0, 0, 1, 1], [0, 1], []] ∧
      Lists Enumeration.step (p.backend.generate (some 3)) [[0, 1], []] := by
  have hdepth :
      (toyCfg.mergedParams (.ofList [("max_depth", .ofNat 3)])).nat "max_depth" = .ok 3 := by cbv
  obtain ⟨p, hp, haccepts, hshort, hall⟩ := toyCfg_lists_zeros_ones _ 3 hdepth
  refine ⟨hdepth, p, hp, (haccepts _).2 ⟨3, rfl⟩, fun h ↦ ?_, hall (by decide),
    hshort 3 (by decide)⟩
  obtain ⟨n, hn⟩ := (haccepts _).1 h
  obtain rfl : n = 1 := by
    have hlength : 2 = n + n := by simpa [zerosOnes] using congrArg List.length hn
    omega
  exact absurd hn (by decide)

end Language

end LangBench
