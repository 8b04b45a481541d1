import LangBench.Grammar.Derivation
import LangBench.Proofs.Enumeration.Steps
import LangBench.Proofs.Grammar.LeastYield
import Mathlib.Algebra.Order.BigOperators.Group.List
import Mathlib.Algebra.Order.Ring.Nat
import Mathlib.Order.Lattice.Nat

/-!
Runs in which no sum of least lengths grows to a number that does not count.
-/

namespace LangBench

namespace Grammar

variable {g : Grammar} {row : List Item} {x : Item}

/-- The least length of what an item derives, however great it is. -/
noncomputable def shortest (g : Grammar) (x : Item) : Nat :=
  sInf {n | ∃ w, g.Yields [x] w ∧ w.length = n}

theorem shortest_le {w : Sample} (hw : g.Yields [x] w) : g.shortest x ≤ w.length :=
  Nat.sInf_le ⟨w, hw, rfl⟩

theorem shortest_terminal_le (g : Grammar) (x : Symbol) : g.shortest (.terminal x) ≤ 1 :=
  shortest_le (yields_wordRow [x])

/-- If every item of the row derives something, the sum of their least lengths counts. -/
def Counts (g : Grammar) (row : List Item) : Prop :=
  (∀ x ∈ row, ∃ w, g.Yields [x] w) → (row.map g.shortest).sum < unproductive

theorem WellFormed.minYield_le_shortest (hg : g.WellFormed) {w : Sample} (hw : g.Yields [x] w) :
    g.minYield x ≤ g.shortest x := by
  obtain ⟨v, ⟨f, rfl⟩, hlen⟩ : g.shortest x ∈ {n | ∃ w, g.Yields [x] w ∧ w.length = n} :=
    Nat.sInf_mem ⟨w.length, w, hw, rfl⟩
  rw [← hlen]
  exact hg.leastSum_le f

theorem Forest.exists_yields_of_mem (f : g.Forest row) : ∀ x ∈ row, ∃ w, g.Yields [x] w := by
  intro x hx
  obtain ⟨before, after, rfl⟩ := List.append_of_mem hx
  obtain ⟨-, f, -⟩ := f.exists_append
  obtain ⟨f, -, -⟩ := Forest.exists_append (show g.Forest ([x] ++ after) from f)
  exact ⟨_, f, rfl⟩

theorem WellFormed.leastSum_lt (hg : g.WellFormed) (f : g.Forest row) (h : g.Counts row) :
    g.leastSum row < unproductive := by
  refine Nat.lt_of_le_of_lt ?_ (h f.exists_yields_of_mem)
  refine List.sum_le_sum fun x hx ↦ ?_
  obtain ⟨w, hw⟩ := f.exists_yields_of_mem x hx
  exact hg.minYield_le_shortest hw

end Grammar

open Grammar

/-- The level that is enumerated; with a depth bound none is ever raised. -/
def DepthMode.level : DepthMode → Nat
  | .bounded => 0
  | .deepening level _ => level

namespace Derivations

/-- The rows of items whose least lengths the next step adds up. -/
def rowsAdded (d : Derivations) : List (List Item) :=
  match d.stack with
  | ⟨_, (.nonterminal n, _ + 1) :: pending, _, _⟩ :: _ =>
    (d.grammar.alternativesOf n).map (· ++ pending.map Prod.fst)
  | _ => []

/-- The sums of least lengths that come up until a level is left behind all count. -/
structure Moderate (d : Derivations) (level : Nat) : Prop where
  start : d.grammar.Counts [.nonterminal d.grammar.start]
  rows : ∀ out d', Steps step d out d' → d'.mode.level ≤ level →
    ∀ row ∈ d'.rowsAdded, d.grammar.Counts row

/-- The sums of least lengths that come up while the first `n` samples and then the answer to one
more request are looked for all count. -/
structure ModerateFor (d : Derivations) (n : Nat) : Prop where
  start : d.grammar.Counts [.nonterminal d.grammar.start]
  rows : ∀ out d', Steps step d out d' → out.length ≤ n →
    ∀ row ∈ d'.rowsAdded, d.grammar.Counts row

/-- More samples have been handed out than a limit allows, if there is one. -/
def Passed (limit : Option Nat) (n : Nat) : Prop := ∃ m ∈ limit, m < n

@[simp] theorem not_passed_none (n : Nat) : ¬ Passed none n := by simp [Passed]

@[simp] theorem passed_some {m n : Nat} : Passed (some m) n ↔ m < n := by simp [Passed]

theorem Passed.mono {limit : Option Nat} {m n : Nat} (h : Passed limit m) (hle : m ≤ n) :
    Passed limit n := by
  obtain ⟨k, hk, hlt⟩ := h
  exact ⟨k, hk, Nat.lt_of_lt_of_le hlt hle⟩

/-- The sums of least lengths that come up until a level is left behind or a limit is passed all
count. -/
structure ModerateUntil (d : Derivations) (limit : Option Nat) (level : Nat) : Prop where
  start : d.grammar.Counts [.nonterminal d.grammar.start]
  rows : ∀ out d', Steps step d out d' → ¬ Passed limit out.length → d'.mode.level ≤ level →
    ∀ row ∈ d'.rowsAdded, d.grammar.Counts row

variable {d : Derivations} {level n : Nat}

theorem Moderate.mono {level' : Nat} (h : d.Moderate level) (hle : level' ≤ level) :
    d.Moderate level' :=
  ⟨h.start, fun out d' hsteps hlevel ↦ h.rows out d' hsteps (Nat.le_trans hlevel hle)⟩

theorem ModerateUntil.mono {limit : Option Nat} {level' : Nat} (h : d.ModerateUntil limit level)
    (hle : level' ≤ level) : d.ModerateUntil limit level' :=
  ⟨h.start, fun out d' hsteps hpassed hlevel ↦
    h.rows out d' hsteps hpassed (Nat.le_trans hlevel hle)⟩

theorem Moderate.moderateUntil (h : d.Moderate level) (limit : Option Nat) :
    d.ModerateUntil limit level :=
  ⟨h.start, fun out d' hsteps _ ↦ h.rows out d' hsteps⟩

theorem ModerateFor.moderateUntil (h : d.ModerateFor n) (level : Nat) :
    d.ModerateUntil (some n) level :=
  ⟨h.start, fun out d' hsteps hpassed _ ↦ h.rows out d' hsteps (by simpa using hpassed)⟩

theorem moderateFor_of_moderate (h : ∀ level, d.Moderate level) (n : Nat) : d.ModerateFor n :=
  ⟨(h 0).start, fun out d' hsteps _ ↦ (h d'.mode.level).rows out d' hsteps (Nat.le_refl _)⟩

theorem moderate_of_moderateFor (h : ∀ n, d.ModerateFor n) (level : Nat) : d.Moderate level :=
  ⟨(h 0).start, fun out d' hsteps _ ↦ (h out.length).rows out d' hsteps (Nat.le_refl _)⟩

end Derivations

end LangBench
