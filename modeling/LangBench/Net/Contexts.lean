import LangBench.Error

/-!
What follows which contexts, and how often.

A context is held last symbol first. The contexts that have been seen form a tree: its root is the
empty context, and each step down makes the context one symbol longer at its far end. So with a
context its ends are in the tree too, and the longest known context at the end of a history is found
in one walk from the root.
-/

namespace LangBench

universe u

/-- Bind a symbol in a list by ascending symbols, replacing an earlier binding of it. -/
def bindSymbol {α : Type u} (x : Symbol) (v : α) : List (Symbol × α) → List (Symbol × α)
  | [] => [(x, v)]
  | e :: es =>
    if x < e.1 then (x, v) :: e :: es
    else if x = e.1 then (x, v) :: es
    else e :: bindSymbol x v es

theorem lookup_bindSymbol {α : Type u} (x y : Symbol) (v : α) (es : List (Symbol × α)) :
    (bindSymbol x v es).lookup y = if y = x then some v else es.lookup y := by
  induction es with
  | nil => exact lookup_cons_eq_ite y (x, v) []
  | cons e es ih =>
    unfold bindSymbol
    split
    · exact lookup_cons_eq_ite y (x, v) (e :: es)
    · split
      · next heq =>
        rw [lookup_cons_eq_ite, lookup_cons_eq_ite, ← heq]
        split <;> rfl
      · next hne =>
        rw [lookup_cons_eq_ite, lookup_cons_eq_ite, ih]
        by_cases hy : y = e.1
        · rw [if_pos hy, if_pos hy, if_neg fun h : y = x ↦ hne (h.symm.trans hy)]
        · rw [if_neg hy, if_neg hy]

/-- What follows a context, and how often. -/
structure Tally where
  width : Nat
  /-- The symbols counted so far, ascending, each with its count. -/
  counts : List (Symbol × Nat)
  deriving DecidableEq

namespace Tally

def empty (width : Nat) : Tally := ⟨width, []⟩

def count (t : Tally) (x : Symbol) : Nat := (t.counts.lookup x).getD 0

def add (x : Symbol) (t : Tally) : Tally :=
  { t with counts := bindSymbol x (t.count x + 1) t.counts }

theorem count_add (x y : Symbol) (t : Tally) :
    (t.add x).count y = if y = x then t.count x + 1 else t.count y := by
  simp only [count, add, lookup_bindSymbol]
  split <;> rfl

end Tally

/-- The contexts that have been seen, each with what follows it. -/
inductive ContextTree where
  /-- What follows a context, and the contexts that are longer by one symbol. -/
  | node (tally : Tally) (longer : List (Symbol × ContextTree))

namespace ContextTree

def tally : ContextTree → Tally
  | node t _ => t

def longer : ContextTree → List (Symbol × ContextTree)
  | node _ l => l

def find? (t : ContextTree) : List Symbol → Option Tally
  | [] => some t.tally
  | y :: older => (t.longer.lookup y).bind fun l ↦ l.find? older

/-- What follows the longest known context at the end of a history. -/
def longest (t : ContextTree) : List Symbol → Tally
  | [] => t.tally
  | y :: older =>
    match t.longer.lookup y with
    | some l => l.longest older
    | none => t.tally

/-- Count a symbol after every context at the end of a history. A tally that is already there keeps
its width. -/
def observe (width : Nat) (x : Symbol) :
    List Symbol → Option ContextTree → Except NetFault ContextTree
  | history, known =>
    let tally := known.elim (.empty width) tally
    let longer := known.elim [] longer
    if x.toNat < tally.width then
      match history with
      | [] => .ok (node (tally.add x) longer)
      | y :: older =>
        (observe width x older (longer.lookup y)).map fun l ↦
          node (tally.add x) (bindSymbol y l longer)
    else .error .narrowCounts

end ContextTree

end LangBench
