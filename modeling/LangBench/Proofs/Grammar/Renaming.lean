import LangBench.Proofs.Enumeration.Steps
import LangBench.Proofs.Grammar.Forest
import Mathlib.Data.List.Basic

/-!
Grammars that differ only in the names of their terminals. No step of an enumeration looks at a
terminal, so their derivations go the same way, and what one yields the other yields with the names
changed.
-/

namespace LangBench.Grammar

variable {φ : Symbol → Symbol} {g g' : Grammar} {row : List Item} {ps : List Production}
  {table : Array Nat} {n : Nat}

def Item.rename (φ : Symbol → Symbol) : Item → Item
  | .terminal x => .terminal (φ x)
  | .nonterminal n => .nonterminal n

def Production.rename (φ : Symbol → Symbol) (p : Production) : Production :=
  ⟨p.lhs, p.rhs.map (Item.rename φ)⟩

/-- The second grammar is the first with other names for terminals. -/
structure Renamed (φ : Symbol → Symbol) (g g' : Grammar) : Prop where
  length_eq : g'.nonterminals.length = g.nonterminals.length
  productions_eq : g'.productions = g.productions.map (Production.rename φ)

theorem yieldIn_rename (x : Item) : (x.rename φ).yieldIn table = x.yieldIn table := by
  cases x <;> rfl

theorem yieldIn_map_rename (row : List Item) :
    yieldIn table (row.map (Item.rename φ)) = yieldIn table row := by
  rw [yieldIn, List.foldl_map]
  simp only [yieldIn_rename]
  rfl

theorem relaxAll_rename (ps : List Production) (table : Array Nat) :
    relaxAll (ps.map (Production.rename φ)) table = relaxAll ps table := by
  have hrelax (table : Array Nat) (p : Production) : relax table (p.rename φ) = relax table p := by
    unfold relax
    rw [show (p.rename φ).rhs = p.rhs.map (Item.rename φ) from rfl, yieldIn_map_rename]
    rfl
  rw [relaxAll, List.foldl_map]
  simp only [hrelax]
  rfl

theorem settle_rename (ps : List Production) (table : Array Nat) :
    settle (ps.map (Production.rename φ)) table = settle ps table := by
  fun_induction settle ps table with
  | case1 table lowered h =>
    have hsame : relaxAll (ps.map (Production.rename φ)) table = lowered := relaxAll_rename ps table
    rw [settle, dif_pos (hsame.trans h)]
  | case2 table lowered h _ ih =>
    have hsame : relaxAll (ps.map (Production.rename φ)) table = lowered := relaxAll_rename ps table
    rw [settle, dif_neg fun h' ↦ h (hsame.symm.trans h'), ← ih]
    exact congrArg (settle _) hsame

namespace Renamed

theorem minYields_eq (h : g.Renamed φ g') : g'.minYields = g.minYields := by
  rw [g'.minYields_eq, g.minYields_eq, leastYields, leastYields, h.length_eq, h.productions_eq,
    Array.toList_map, settle_rename]

theorem minYield_rename (h : g.Renamed φ g') (x : Item) :
    g'.minYield (x.rename φ) = g.minYield x := by
  rw [minYield, h.minYields_eq, yieldIn_rename]
  rfl

theorem rowYield_map (h : g.Renamed φ g') (row : List Item) :
    g'.rowYield (row.map (Item.rename φ)) = g.rowYield row := by
  rw [rowYield, h.minYields_eq, yieldIn_map_rename]
  rfl

theorem productionsOf_eq (h : g.Renamed φ g') (n : Nat) :
    g'.productionsOf n = g.productionsOf n := by
  rw [Grammar.productionsOf_eq, Grammar.productionsOf_eq, placesOf, placesOf, h.productions_eq,
    Array.size_map]
  refine List.filter_congr fun p _ ↦ ?_
  rw [Array.getElem?_map, Option.any_map]
  rfl

theorem alternativesOf_eq (h : g.Renamed φ g') (n : Nat) :
    g'.alternativesOf n = (g.alternativesOf n).map (List.map (Item.rename φ)) := by
  rw [alternativesOf, alternativesOf, h.productionsOf_eq, List.map_filterMap]
  refine List.filterMap_congr fun p _ ↦ ?_
  rw [h.productions_eq, Array.getElem?_map, Option.map_map, Option.map_map]
  rfl

theorem yields (h : g.Renamed φ g') {w : Sample} (hw : g.Yields row w) :
    g'.Yields (row.map (Item.rename φ)) (w.map φ) := by
  obtain ⟨f, rfl⟩ := hw
  induction f with
  | nil => exact yields_nil_iff.2 rfl
  | terminal x rest ih => exact yields_terminal_cons_iff.2 ⟨_, rfl, ih⟩
  | expand n i children rest ihc ihr =>
    refine yields_nonterminal_cons_iff.2 ⟨_, _, _, ?_, ihc, ihr, List.map_append⟩
    refine mem_alternativesOf.1 ?_
    rw [h.alternativesOf_eq]
    exact List.mem_map_of_mem (List.get_mem _ i)

end Renamed

end Grammar

namespace Derivations

open Grammar

variable {φ : Symbol → Symbol} {g g' : Grammar} {maxLength : Option Nat}

def renameFrame (φ : Symbol → Symbol) (f : Frame) : Frame :=
  { f with
    output := f.output.map φ
    pending := f.pending.map fun (x, budget) ↦ (x.rename φ, budget) }

/-- The second enumeration is the first with other names for terminals. -/
structure Renamed (φ : Symbol → Symbol) (d d' : Derivations) : Prop where
  grammar : d.grammar.Renamed φ d'.grammar
  maxLength_eq : d'.maxLength = d.maxLength
  mode_eq : d'.mode = d.mode
  stack_eq : d'.stack = d.stack.map (renameFrame φ)

theorem fits_rename (f : Frame) : fits maxLength (renameFrame φ f) = fits maxLength f := by
  have hlength : (renameFrame φ f).output.length = f.output.length := List.length_map _
  rw [fits, fits, hlength]
  rfl

theorem filter_fits_rename (frames : List Frame) :
    (frames.map (renameFrame φ)).filter (fits maxLength) =
      (frames.filter (fits maxLength)).map (renameFrame φ) := by
  rw [List.filter_map]
  exact congrArg _ (List.filter_congr fun f _ ↦ fits_rename f)

theorem seed_rename (h : g.Renamed φ g') (budget : Nat) :
    seed g' maxLength budget = (seed g maxLength budget).map (renameFrame φ) := by
  have hmin : g'.minYield (.nonterminal g'.start) = g.minYield (.nonterminal g.start) :=
    h.minYield_rename (.nonterminal g.start)
  rw [seed, seed, ← filter_fits_rename]
  simp only [hmin]
  rfl

theorem replaced_rename (h : g.Renamed φ g') (f : Frame) (budget : Nat) (row : List Item) :
    replaced g' (renameFrame φ f) budget (row.map (Item.rename φ)) =
      (replaced g f budget row).map (renameFrame φ) := by
  unfold replaced
  rw [h.rowYield_map]
  split
  · rfl
  · simp [renameFrame, Function.comp_def]

theorem expand_rename (h : g.Renamed φ g') (f : Frame) (budget : Nat) (x : Item) :
    expand g' maxLength (renameFrame φ f) budget (x.rename φ) =
      (expand g maxLength f budget x).map (renameFrame φ) := by
  cases x with
  | terminal x =>
    rw [expand, ← filter_fits_rename]
    rfl
  | nonterminal n =>
    rw [Item.rename, expand, expand, h.alternativesOf_eq, List.filterMap_map, ← filter_fits_rename,
      List.map_filterMap]
    refine congrArg _ (List.filterMap_congr fun row _ ↦ ?_)
    exact replaced_rename h f budget row

theorem renamed_ofGrammar (h : g.Renamed φ g') (maxDepth maxLength : Option Nat) :
    Renamed φ (ofGrammar g maxDepth maxLength) (ofGrammar g' maxDepth maxLength) := by
  cases maxDepth with
  | none => exact ⟨h, rfl, rfl, seed_rename h 1⟩
  | some depth => exact ⟨h, rfl, rfl, seed_rename h depth⟩

theorem Renamed.step {d d' : Derivations} (h : Renamed φ d d') :
    Step.Lockstep (List.map φ) (Renamed φ) d.step d'.step := by
  obtain ⟨g, maxLength, mode, stack⟩ := d
  obtain ⟨g', maxLength', mode', stack'⟩ := d'
  obtain ⟨hg, hlength, hmode, hstack⟩ := h
  obtain rfl : maxLength' = maxLength := hlength
  obtain rfl : mode' = mode := hmode
  obtain rfl : stack' = stack.map (renameFrame φ) := hstack
  rcases stack with _ | ⟨⟨output, pending, pendingMin, minBudget⟩, stack⟩
  · cases mode' with
    | bounded => exact .done
    | deepening level cut =>
      cases cut with
      | false => exact .done
      | true => exact .skip ⟨hg, rfl, rfl, seed_rename hg _⟩
  · rcases pending with _ | ⟨⟨x, _ | budget⟩, pending⟩
    · by_cases hadmits : mode'.admits minBudget = true
      · simp only [Derivations.step, List.map_cons, renameFrame, List.map_nil, hadmits, if_true]
        rw [← List.map_reverse]
        exact .emit _ ⟨hg, rfl, rfl, rfl⟩
      · simp only [Derivations.step, List.map_cons, renameFrame, List.map_nil, hadmits]
        exact .skip ⟨hg, rfl, rfl, rfl⟩
    · exact .skip ⟨hg, rfl, rfl, rfl⟩
    · refine .skip ⟨hg, rfl, rfl, ?_⟩
      rw [List.map_append, ← expand_rename hg]
      simp only [renameFrame, List.map_cons, hg.minYield_rename]

/-- The same samples come, with the names changed, and the end comes at the same time. -/
theorem take_rename (h : g.Renamed φ g') (maxDepth maxLength : Option Nat) (budget n : Nat) :
    take step budget n (ofGrammar g' maxDepth maxLength) =
      { take step budget n (ofGrammar g maxDepth maxLength) with
        samples := (take step budget n (ofGrammar g maxDepth maxLength)).samples.map (List.map φ) } :=
  take_lockstep (fun _ _ h ↦ Renamed.step h) (renamed_ofGrammar h maxDepth maxLength) budget n

end Derivations

end LangBench
