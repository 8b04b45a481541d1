import LangBench.Enumeration.Step
import LangBench.Grammar.Basic

/-!
Enumerating what a grammar derives.

The leftmost item is expanded first, alternatives in their order. Every item costs one level of
depth: the start has the whole budget, and the items of an expansion have one less than what they
replace. With a depth bound all derivations within it are listed. Without one the bound is raised
level by level; a level hands out the derivations that use all of it, and the last level is the
first that cuts no branch short.
-/

namespace LangBench

open Grammar in
/-- A derivation in progress. -/
structure Frame where
  /-- The symbols derived so far, last first. -/
  output : List Symbol
  pending : List (Item × Nat)
  pendingMin : Nat
  /-- The least budget of an item expanded so far. -/
  minBudget : Nat

/-- How deep an enumeration goes. -/
inductive DepthMode where
  /-- As deep as the bound it started with. -/
  | bounded
  /-- To a level that is raised; `cut` tells whether this level has cut a branch short. -/
  | deepening (level : Nat) (cut : Bool)

/-- An enumeration of derivations. -/
structure Derivations where
  grammar : Grammar
  /-- No longer samples are derived. -/
  maxLength : Option Nat
  mode : DepthMode
  /-- The derivations in progress, next first. -/
  stack : List Frame

def DepthMode.noteCut : DepthMode → DepthMode
  | .bounded => .bounded
  | .deepening level _ => .deepening level true

/-- Whether a complete derivation is to be handed out: at a level, only if it uses all of it. -/
def DepthMode.admits (mode : DepthMode) (minBudget : Nat) : Bool :=
  match mode with
  | .bounded => true
  | .deepening _ _ => minBudget = 1

namespace Derivations

open Grammar

/-- Whether a derivation can still end in a sample that is short enough. -/
def fits (maxLength : Option Nat) (f : Frame) : Bool :=
  f.pendingMin ≠ unproductive && maxLength.all fun m ↦ f.output.length + f.pendingMin ≤ m

/-- The derivation that has only the start item, if it fits. -/
def seed (g : Grammar) (maxLength : Option Nat) (budget : Nat) : List Frame :=
  let start := Item.nonterminal g.start
  [Frame.mk [] [(start, budget)] (g.minYield start) budget].filter (fits maxLength)

def ofGrammar (g : Grammar) (maxDepth maxLength : Option Nat) : Derivations :=
  match maxDepth with
  | some depth => ⟨g, maxLength, .bounded, seed g maxLength depth⟩
  | none => ⟨g, maxLength, .deepening 1 false, seed g maxLength 1⟩

/-- Replace an expanded item by a row of items with a smaller budget, if that can derive
anything. -/
def replaced (g : Grammar) (f : Frame) (budget : Nat) (row : List Item) : Option Frame :=
  if g.rowYield row = unproductive then none
  else some { f with
    pending := row.map (fun x ↦ (x, budget)) ++ f.pending
    pendingMin := f.pendingMin + g.rowYield row }

/-- Expand an item that has `budget + 1` left, where `f` is the derivation without it. -/
def expand (g : Grammar) (maxLength : Option Nat) (f : Frame) (budget : Nat) :
    Item → List Frame
  | .terminal x => [{ f with output := x :: f.output }].filter (fits maxLength)
  | .nonterminal n => ((g.alternativesOf n).filterMap (replaced g f budget)).filter (fits maxLength)

/-- Work on the next derivation, or go to the next level when none is left. -/
def step (d : Derivations) : Step Derivations :=
  match d.stack with
  | [] =>
    match d.mode with
    | .deepening level true =>
      .skip { d with
        mode := .deepening (level + 1) false
        stack := seed d.grammar d.maxLength (level + 1) }
    | _ => .done
  | f :: stack =>
    match f.pending with
    | [] =>
      if d.mode.admits f.minBudget then .emit f.output.reverse { d with stack }
      else .skip { d with stack }
    | (_, 0) :: _ => .skip { d with stack, mode := d.mode.noteCut }
    | (x, budget + 1) :: pending =>
      let rest : Frame := { f with
        pending
        pendingMin := f.pendingMin - d.grammar.minYield x
        minBudget := min f.minBudget (budget + 1) }
      .skip { d with stack := expand d.grammar d.maxLength rest budget x ++ stack }

end Derivations

end LangBench
