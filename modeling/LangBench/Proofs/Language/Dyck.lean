import LangBench.Proofs.Benchmark.Stock
import LangBench.Proofs.Grammar.Words
import LangBench.Proofs.Language.Brackets
import Mathlib

/-!
The language `dyck_cfg` is that of the balanced rows of brackets. Its depth bound is a bound on
their height: a tree of the grammar is as high as the row that it yields, and there is one tree for
each row.
-/

namespace LangBench

open Brackets

namespace Grammar

def bracketed (x y : Symbol) : List Item :=
  [.terminal x, .nonterminal 0, .terminal y, .nonterminal 0]

/-- The grammar of balanced rows of brackets of two kinds. -/
structure IsDyck (g : Grammar) : Prop where
  wellFormed : g.WellFormed
  productions_eq : g.productions = #[⟨0, bracketed 0 1⟩, ⟨0, bracketed 2 3⟩, ⟨0, []⟩]

namespace IsDyck

variable {g : Grammar} {n depth : Nat} {w : Sample}

theorem alternativesOf_start (hg : g.IsDyck) :
    g.alternativesOf 0 = [bracketed 0 1, bracketed 2 3, []] := by
  simp only [alternativesOf, productionsOf_eq, hg.productions_eq]
  rfl

theorem mem_alternativesOf_iff (hg : g.IsDyck) {alt : List Item} :
    alt ∈ g.alternativesOf n ↔
      n = 0 ∧ (alt = bracketed 0 1 ∨ alt = bracketed 2 3 ∨ alt = []) := by
  simp only [mem_alternativesOf, hg.productions_eq, List.mem_toArray, List.mem_cons,
    Production.mk.injEq, List.not_mem_nil, or_false, ← and_or_left]

theorem wordsWithin_bracketed (budget : Nat) (x y : Symbol) :
    g.wordsWithin budget (bracketed x y) = pairs x y (g.wordsWithin budget [.nonterminal 0]) := by
  cases budget with
  | zero => simp [bracketed, pairs]
  | succ budget =>
    have hclose : g.wordsWithin (budget + 1) [.terminal y, .nonterminal 0] =
        (g.wordsWithin (budget + 1) [.nonterminal 0]).map (y :: ·) := wordsWithin_terminal_cons y
    rw [bracketed, wordsWithin_terminal_cons, wordsWithin_cons, hclose]
    simp [pairs, List.map_flatMap, Function.comp_def]

/-- The words within a depth are the balanced rows up to this height. -/
theorem wordsWithin_start (hg : g.IsDyck) (depth : Nat) :
    g.wordsWithin depth [.nonterminal g.start] = rowsUpTo depth := by
  change g.wordsWithin depth [.nonterminal 0] = rowsUpTo depth
  induction depth with
  | zero => exact wordsWithin_zero_cons
  | succ depth ih =>
    rw [wordsWithin_nonterminal_cons, hg.alternativesOf_start]
    simp [wordsWithin_bracketed, ih, rowsUpTo]

theorem accepts_eq (hg : g.IsDyck) (maxDepth : Option Nat) (w : Sample) :
    (Cfg.mk g maxDepth).accepts w = consumes [] w := by
  rw [Bool.eq_iff_iff, Cfg.accepts_iff hg.wellFormed, yields_iff_mem_wordsWithin,
    consumes_iff_balanced]
  simp only [hg.wordsWithin_start, mem_rowsUpTo_iff]
  constructor
  · intro h
    obtain ⟨_, h, -⟩ := h
    exact h
  · exact fun h ↦ ⟨height w, h, Nat.le_refl _⟩

theorem minYield_start (hg : g.IsDyck) : g.minYield (.nonterminal 0) = 0 :=
  hg.wellFormed.minYield_eq_zero (by simp [hg.alternativesOf_start])

end IsDyck

end Grammar

namespace Derivations

open Grammar

variable {g : Grammar} {depth : Nat} {maxLength : Option Nat} {samples : List Sample} {w : Sample}

/-- Each level of depth has at most one closing bracket pending behind its first item. -/
def Tiered (g : Grammar) (depth : Nat) : List (Item × Nat) → Prop
  | [] => True
  | (x, budget) :: pending =>
    g.minYield x ≤ 1 ∧ g.leastSum (pending.map Prod.fst) + budget ≤ depth ∧ Tiered g depth pending

theorem Tiered.leastSum_le {pending : List (Item × Nat)} (h : Tiered g depth pending) :
    g.leastSum (pending.map Prod.fst) ≤ depth + 1 := by
  cases pending with
  | nil => exact Nat.zero_le _
  | cons p pending =>
    obtain ⟨hitem, hsum, -⟩ := h
    rw [List.map_cons, leastSum_cons]
    omega

theorem Tiered.bracketed (hg : g.IsDyck) {budget : Nat} {pending : List (Item × Nat)}
    (hsum : g.leastSum (pending.map Prod.fst) + budget + 1 ≤ depth) (h : Tiered g depth pending)
    (x y : Symbol) : Tiered g depth ((bracketed x y).map (·, budget) ++ pending) := by
  have hterminal (x : Symbol) : g.minYield (.terminal x) = 1 := rfl
  simp only [Grammar.bracketed, List.map_cons, List.map_nil, List.cons_append, List.nil_append,
    Tiered, leastSum_cons, hterminal, hg.minYield_start]
  refine ⟨?_, ?_, ?_, ?_, ?_, ?_, ?_, ?_, h⟩ <;> omega

theorem sparing_tiered (hg : g.IsDyck) (hdepth : depth + 1 < unproductive) (w : Sample) :
    Sparing g w (Tiered g depth) where
  counts pending h _ := Nat.lt_of_le_of_lt h.leastSum_le hdepth
  terminal x budget pending h := h.2.2
  nonterminal n budget pending h alt halt := by
    obtain ⟨-, hsum, hrest⟩ := h
    obtain ⟨-, rfl | rfl | rfl⟩ := hg.mem_alternativesOf_iff.1 halt
    · exact hrest.bracketed hg (by omega) 0 1
    · exact hrest.bracketed hg (by omega) 2 3
    · exact hrest

/-- Of all rows the enumeration hands out those that are balanced, short enough and not too high,
each once. The number of closing brackets that are pending has to count; it is bounded by the depth
and by the length of a row. -/
theorem count_dyck (hg : g.IsDyck) (h : Lists step (ofGrammar g (some depth) maxLength) samples)
    (hcounts : depth + 1 < unproductive ∨ w.length < unproductive) :
    samples.count w = if consumes [] w = true ∧ WithinLength maxLength w.length ∧
      height w ≤ depth then 1 else 0 := by
  have hcount : samples.count w = if WithinLength maxLength w.length then
      (g.wordsWithin depth [.nonterminal g.start]).count w else 0 := by
    rcases hcounts with hdepth | hshort
    · refine count_of_lists_bounded hg.wellFormed (sparing_tiered hg hdepth w) ?_ h
      exact ⟨hg.minYield_start ▸ Nat.zero_le 1, by simp, trivial⟩
    · exact count_of_lists_bounded hg.wellFormed (sparing_of_short g hshort) trivial h
  rw [hcount, hg.wordsWithin_start, count_rowsUpTo, ← ite_and]
  exact if_congr and_left_comm rfl rfl

end Derivations

namespace Language

theorem exists_dyck_grammar : ∃ g : Grammar, g.IsDyck ∧ ∀ (overrides : Params) (depth : Nat),
    (dyckCfg.mergedParams overrides).nat "max_depth" = .ok depth →
      ∃ p, Registry.builtin.prepare "dyck_cfg" overrides = .ok p ∧
        p.backend = Cfg.backend ⟨g, some depth⟩ := by
  obtain ⟨g, hparse, hproductions, hterminals⟩ : ∃ g,
      Grammar.parse? "S -> '(' S ')' S\n   | '[' S ']' S\n   |\n" (some ["(", ")", "[", "]"]) =
        .ok g ∧
      g.productions =
        #[⟨0, Grammar.bracketed 0 1⟩, ⟨0, Grammar.bracketed 2 3⟩, ⟨0, []⟩] ∧
      g.terminalCount = 4 := ⟨_, by cbv, by cbv, by cbv⟩
  refine ⟨g, ⟨Grammar.wellFormed_of_parse? hparse, hproductions⟩, fun overrides depth hdepth ↦ ?_⟩
  obtain ⟨p, hp, hbackend⟩ := prepare_ofGrammar hparse (Nat.le_of_eq hterminals) hdepth
  exact ⟨p, Registry.prepare_eq_ok.2 ⟨dyckCfg, by cbv, hp⟩, hbackend⟩

/-- Whatever its depth is set to, `dyck_cfg` accepts the rows of brackets that are balanced, and
lists those that are short enough and not higher than the depth, each once. Nothing is said of a row
that is too long to be held with lengths of 64 bits, unless the depth is less than such lengths. -/
theorem dyckCfg_lists_balanced (overrides : Params) (depth : Nat)
    (hdepth : (dyckCfg.mergedParams overrides).nat "max_depth" = .ok depth) :
    ∃ p, Registry.builtin.prepare "dyck_cfg" overrides = .ok p ∧
      (∀ w, p.backend.accepts w = consumes [] w) ∧
      (height [] = 1 ∧ ∀ x y u v, closer? x = some y → consumes [] u = true →
        consumes [] v = true → height (x :: (u ++ y :: v)) = 1 + max (height u) (height v)) ∧
      ∀ maxLength, ∃ samples, Lists Enumeration.step (p.backend.generate maxLength) samples ∧
        ∀ w, depth + 1 < Grammar.unproductive ∨ w.length < Grammar.unproductive →
          samples.count w = if consumes [] w = true ∧
            Derivations.WithinLength maxLength w.length ∧ height w ≤ depth then 1 else 0 := by
  obtain ⟨g, hg, hprepare⟩ := exists_dyck_grammar
  obtain ⟨p, hp, hbackend⟩ := hprepare overrides depth hdepth
  refine ⟨p, hp, ?_⟩
  rw [hbackend]
  refine ⟨hg.accepts_eq _, ⟨height_empty, ?_⟩, fun maxLength ↦ ?_⟩
  · intro x y u v hxy hu hv
    exact height_pair hxy (consumes_iff_balanced.1 hu) (consumes_iff_balanced.1 hv)
  · obtain ⟨samples, hsamples⟩ := Derivations.exists_lists_of_bound hg.wellFormed depth maxLength
    exact ⟨samples, Lists.map (f := Enumeration.derivations) (fun _ ↦ rfl) hsamples,
      fun w hcounts ↦ Derivations.count_dyck hg hsamples hcounts⟩

/-- At depth 2 a pair is listed, but not one pair after another. -/
theorem dyckCfg_lists_balanced_shallow :
    (dyckCfg.mergedParams (.ofList [("max_depth", .ofNat 2)])).nat "max_depth" = .ok 2 ∧
    ∃ p, Registry.builtin.prepare "dyck_cfg" (.ofList [("max_depth", .ofNat 2)]) = .ok p ∧
      p.backend.accepts [0, 2, 3, 1] = true ∧ p.backend.accepts [0, 3] = false ∧
      ∃ samples, Lists Enumeration.step (p.backend.generate (some 4)) samples ∧
        samples.count [0, 1] = 1 ∧ samples.count [0, 1, 2, 3] = 0 := by
  have hdepth :
      (dyckCfg.mergedParams (.ofList [("max_depth", .ofNat 2)])).nat "max_depth" = .ok 2 := by cbv
  obtain ⟨p, hp, haccepts, -, hlists⟩ := dyckCfg_lists_balanced _ 2 hdepth
  obtain ⟨samples, hsamples, hcount⟩ := hlists (some 4)
  have hsmall : 2 + 1 < Grammar.unproductive := by decide
  refine ⟨hdepth, p, hp, (haccepts _).trans rfl, (haccepts _).trans rfl, samples, hsamples, ?_, ?_⟩
  · rw [hcount _ (.inl hsmall)]
    decide
  · rw [hcount _ (.inl hsmall)]
    decide

end Language

end LangBench
