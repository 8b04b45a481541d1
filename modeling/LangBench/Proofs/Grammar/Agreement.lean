import LangBench.Proofs.Grammar.Deepening
import LangBench.Proofs.Grammar.Recognition
import Mathlib

/-!
The language of a grammar that has been read: both engines have the words that its start derives.

The recogniser has them for every grammar and every word. That the enumeration of derivations hands
out only such words needs no bound on sums: every derivation in progress is a row that the start
derives. That all of them come is known for as long as the sums of least lengths count.
-/

namespace LangBench

open Grammar

namespace Cfg

open Derivations

/-- A grammar that has been read accepts just what its start derives, whatever the depth. Filling
the columns comes to an end for every grammar: it is a function that needs no fuel. -/
theorem accepts_iff_derives {text : String} {alphabet : Option (List String)} {g : Grammar}
    (h : parse? text alphabet = .ok g) (maxDepth : Option Nat) (w : Sample) :
    (Cfg.mk g maxDepth).accepts w = true ↔ g.Derives [.nonterminal g.start] (wordRow w) := by
  rw [derives_wordRow_iff]
  exact accepts_iff (wellFormed_of_parse? h) w

/-- A left-recursive and ambiguous grammar that derives the empty word and uses a nonterminal
without productions. -/
theorem accepts_iff_derives_ambiguous :
    ∃ g, parse? "S -> S S | 'a' | U |" none = .ok g ∧
      g.Derives [.nonterminal g.start] (wordRow [0, 0]) ∧
      ¬ g.Derives [.nonterminal g.start] (wordRow [1]) := by
  obtain ⟨g, h, hyes, hno⟩ : ∃ g, parse? "S -> S S | 'a' | U |" none = .ok g ∧
      (Cfg.mk g none).accepts [0, 0] = true ∧ (Cfg.mk g none).accepts [1] = false :=
    ⟨_, by cbv, by cbv, by cbv⟩
  refine ⟨g, h, (accepts_iff_derives h none _).1 hyes, fun hder ↦ ?_⟩
  rw [(accepts_iff_derives h none _).2 hder] at hno
  exact Bool.noConfusion hno

/-- The two engines of a grammar agree. With a depth bound, as long as sums of least lengths count,
the samples that are handed out are those accepted samples that are short enough and have a tree
within the bound. Without one, all that is handed out is accepted and short enough, and all that is
accepted and short enough is handed out, if sums count up to the height of one of its trees. -/
theorem derivations_agree_with_accepts {text : String} {alphabet : Option (List String)}
    {g : Grammar} (h : parse? text alphabet = .ok g) (maxLength : Option Nat) :
    (∀ depth, ((Cfg.mk g (some depth)).derivations maxLength).Moderate depth →
      ∀ w, HandsOut step ((Cfg.mk g (some depth)).derivations maxLength) w ↔
        (Cfg.mk g (some depth)).accepts w = true ∧ WithinLength maxLength w.length ∧
          ∃ t : g.Tree, t.height ≤ depth ∧ t.yield = w) ∧
    (∀ w, HandsOut step ((Cfg.mk g none).derivations maxLength) w →
      (Cfg.mk g none).accepts w = true ∧ WithinLength maxLength w.length) ∧
    ∀ w, (Cfg.mk g none).accepts w = true → WithinLength maxLength w.length →
      (∃ t : g.Tree, t.yield = w) ∧
      ∀ t : g.Tree, t.yield = w → ((Cfg.mk g none).derivations maxLength).Moderate t.height →
        HandsOut step ((Cfg.mk g none).derivations maxLength) w := by
  have hg := wellFormed_of_parse? h
  refine ⟨fun depth hmod w ↦ ?_, fun w hw ↦ ?_, fun w hw hlength ↦ ?_⟩
  · have hlists : HandsOut step ((Cfg.mk g (some depth)).derivations maxLength) w ↔ _ :=
      (lists_bounded hg hmod).mem_iff
    rw [hlists, accepts_iff hg]
    simp only [List.mem_map, List.mem_filter, mem_forests_iff, decide_eq_true_eq]
    constructor
    · intro hex
      obtain ⟨t, ⟨hheight, hlength⟩, rfl⟩ := hex
      exact ⟨⟨t, rfl⟩, hlength, t, hheight, rfl⟩
    · intro hex
      obtain ⟨-, hlength, t, hheight, rfl⟩ := hex
      exact ⟨t, ⟨hheight, hlength⟩, rfl⟩
  · rw [accepts_iff hg]
    exact yields_of_handsOut hw
  · refine ⟨(accepts_iff hg w).1 hw, ?_⟩
    rintro t rfl hmod
    exact handsOut_deepening hg hmod hlength

theorem moderate_of_repeat {g : Grammar}
    (hg : g.alternativesOf 0 = [[.terminal 0, .nonterminal 0], []])
    (maxDepth maxLength : Option Nat) (level : Nat) :
    ((Cfg.mk g maxDepth).derivations maxLength).Moderate level := by
  have hempty : g.Yields [.nonterminal 0] [] :=
    yields_nonterminal_iff.2 ⟨[], mem_alternativesOf.1 (by simp [hg]), yields_nil_iff.2 rfl⟩
  have hterminal : g.shortest (.terminal 0) ≤ 1 := Nat.sInf_le ⟨[0], yields_wordRow [0], rfl⟩
  have hnonterminal : g.shortest (.nonterminal 0) ≤ 0 := Nat.sInf_le ⟨[], hempty, rfl⟩
  have hkept : KeptRow g (· ∈ [[.terminal 0, .nonterminal 0], [.nonterminal 0], []]) := by
    refine ⟨by simp [start], fun t row hrow ↦ ?_, fun n row hrow alt halt ↦ ?_⟩
    · simp at hrow
      simp [hrow.2]
    · obtain ⟨rfl, rfl⟩ : n = 0 ∧ row = [] := by simpa using hrow
      rw [hg] at halt
      rcases List.mem_pair.1 halt with rfl | rfl <;> simp
  refine hkept.moderate (fun row hrow _ ↦ ?_) maxDepth maxLength level
  have hsmall : (row.map g.shortest).sum ≤ 1 := by
    simp only [List.mem_cons, List.not_mem_nil, or_false] at hrow
    rcases hrow with rfl | rfl | rfl <;> simp <;> omega
  exact Nat.lt_of_le_of_lt hsmall (by decide)

/-- For the rows of one letter, some of which need more than two levels. -/
theorem derivations_agree_with_accepts_repeat :
    ∃ g, parse? "S -> 'a' S |" none = .ok g ∧
      (HandsOut step ((Cfg.mk g (some 2)).derivations none) [0, 0] ↔
        ∃ t : g.Tree, t.height ≤ 2 ∧ t.yield = [0, 0]) ∧
      ¬ HandsOut step ((Cfg.mk g none).derivations (some 3)) [1] ∧
      HandsOut step ((Cfg.mk g none).derivations (some 3)) [0, 0] := by
  obtain ⟨g, h, hrows, hyes, hyes', hno⟩ : ∃ g, parse? "S -> 'a' S |" none = .ok g ∧
      g.alternativesOf 0 = [[.terminal 0, .nonterminal 0], []] ∧
      (Cfg.mk g (some 2)).accepts [0, 0] = true ∧ (Cfg.mk g none).accepts [0, 0] = true ∧
      (Cfg.mk g none).accepts [1] = false :=
    ⟨_, by cbv, by cbv, by cbv, by cbv, by cbv⟩
  refine ⟨g, h, ?_, fun hone ↦ ?_, ?_⟩
  · rw [(derivations_agree_with_accepts h none).1 2 (moderate_of_repeat hrows _ _ _)]
    simp [hyes, WithinLength]
  · rw [((derivations_agree_with_accepts h (some 3)).2.1 _ hone).1] at hno
    exact Bool.noConfusion hno
  · obtain ⟨⟨t, ht⟩, hall⟩ := (derivations_agree_with_accepts h (some 3)).2.2 [0, 0] hyes'
      (by decide)
    exact hall t ht (moderate_of_repeat hrows _ _ _)

end Cfg

end LangBench
