import LangBench.Grammar.Basic
import Mathlib.Logic.Relation

/-!
Derivations of a grammar: by rewriting rows of items, and by trees.

A forest holds a tree for each item of a row. Its yield is what the row derives by it, and a row
derives a word by rewriting just if some forest yields the word.
-/

namespace LangBench.Grammar

/-- Apply one production to a nonterminal of a row. -/
inductive Rewrites (g : Grammar) : List Item → List Item → Prop
  | apply (before after : List Item) {p : Production} (hp : p ∈ g.productions) :
      Rewrites g (before ++ .nonterminal p.lhs :: after) (before ++ (p.rhs ++ after))

def Derives (g : Grammar) : List Item → List Item → Prop := Relation.ReflTransGen g.Rewrites

def wordRow (w : Sample) : List Item := w.map .terminal

/-- A derivation tree for each item of a row. A nonterminal is expanded by one of its alternatives,
which is chosen by its place. -/
inductive Forest (g : Grammar) : List Item → Type
  | nil : Forest g []
  | terminal {row : List Item} (x : Symbol) (rest : Forest g row) : Forest g (.terminal x :: row)
  | expand {row : List Item} (n : Nat) (i : Fin (g.alternativesOf n).length)
      (children : Forest g ((g.alternativesOf n).get i)) (rest : Forest g row) :
      Forest g (.nonterminal n :: row)

abbrev Tree (g : Grammar) : Type := g.Forest [.nonterminal g.start]

namespace Forest

variable {g : Grammar} {row row' : List Item}

def yield {row : List Item} : g.Forest row → Sample
  | nil => []
  | terminal x rest => x :: rest.yield
  | expand _ _ children rest => children.yield ++ rest.yield

/-- The height of the highest tree. A terminal has height 1, and an expansion is higher by 1 than
the trees that it consists of. -/
def height {row : List Item} : g.Forest row → Nat
  | nil => 0
  | terminal _ rest => max 1 rest.height
  | expand _ _ children rest => max (children.height + 1) rest.height

def append {row row' : List Item} : g.Forest row → g.Forest row' → g.Forest (row ++ row')
  | nil, f => f
  | terminal x rest, f => terminal x (rest.append f)
  | expand n i children rest, f => expand n i children (rest.append f)

@[simp] theorem yield_append (f : g.Forest row) (f' : g.Forest row') :
    (f.append f').yield = f.yield ++ f'.yield := by
  induction f with
  | nil => rfl
  | terminal x rest ih => simp [append, yield, ih]
  | expand n i children rest _ ih => simp [append, yield, ih]

@[simp] theorem height_append (f : g.Forest row) (f' : g.Forest row') :
    (f.append f').height = max f.height f'.height := by
  induction f with
  | nil => exact (Nat.zero_max _).symm
  | terminal x rest ih => simp [append, height, ih, Nat.max_assoc]
  | expand n i children rest _ ih => simp [append, height, ih, Nat.max_assoc]

theorem exists_append (f : g.Forest (row ++ row')) :
    ∃ (f₁ : g.Forest row) (f₂ : g.Forest row'), f = f₁.append f₂ := by
  induction row with
  | nil => exact ⟨nil, f, rfl⟩
  | cons x row ih =>
    cases x with
    | terminal x =>
      obtain @⟨_⟩ | @⟨_, _, rest⟩ | _ := f
      obtain ⟨f₁, f₂, rfl⟩ := ih rest
      exact ⟨terminal x f₁, f₂, rfl⟩
    | nonterminal n =>
      obtain @⟨_⟩ | _ | @⟨_, _, i, children, rest⟩ := f
      obtain ⟨f₁, f₂, rfl⟩ := ih rest
      exact ⟨expand n i children f₁, f₂, rfl⟩

def ofWord (g : Grammar) : (w : Sample) → g.Forest (wordRow w)
  | [] => nil
  | x :: w => terminal x (ofWord g w)

theorem yield_ofWord (w : Sample) : (ofWord g w).yield = w := by
  induction w with
  | nil => rfl
  | cons x w ih => exact congrArg (x :: ·) ih

end Forest

variable {g : Grammar} {row row' : List Item} {n : Nat} {x : Symbol} {w : Sample}

/-- Expand a nonterminal by one of its alternatives. -/
theorem Forest.exists_expand (h : row ∈ g.alternativesOf n) (children : g.Forest row) :
    ∃ t : g.Forest [.nonterminal n],
      t.yield = children.yield ∧ t.height = children.height + 1 := by
  obtain ⟨i, rfl⟩ := List.get_of_mem h
  exact ⟨.expand n i children .nil, List.append_nil _, Nat.max_eq_left (Nat.zero_le _)⟩

/-- A tree of an item of a row is part of a tree of the nonterminal that the row expands. -/
theorem Forest.exists_through {x : Item} (f : g.Forest row) (hrow : row ∈ g.alternativesOf n)
    (hx : x ∈ row) :
    Nonempty (g.Forest [x]) ∧
      ∀ t : g.Forest [x], ∃ t' : g.Forest [.nonterminal n], t.height + 1 ≤ t'.height := by
  obtain ⟨before, after, rfl⟩ := List.append_of_mem hx
  obtain ⟨left, f, rfl⟩ := f.exists_append
  obtain ⟨t₀, right, -⟩ := Forest.exists_append (show g.Forest ([x] ++ after) from f)
  refine ⟨⟨t₀⟩, fun t ↦ ?_⟩
  obtain ⟨t', -, hheight⟩ := Forest.exists_expand hrow (left.append (t.append right))
  refine ⟨t', ?_⟩
  rw [hheight, Forest.height_append]
  have hle : t.height ≤ (t.append right).height := by
    rw [Forest.height_append]
    exact Nat.le_max_left _ _
  omega

def Yields (g : Grammar) (row : List Item) (w : Sample) : Prop := ∃ f : g.Forest row, f.yield = w

theorem mem_alternativesOf {alt : List Item} :
    alt ∈ g.alternativesOf n ↔ ⟨n, alt⟩ ∈ g.productions := by
  simp only [alternativesOf, productionsOf_eq, placesOf, List.mem_filterMap, List.mem_filter,
    List.mem_range, Option.map_eq_some_iff]
  constructor
  · intro hex
    obtain ⟨p, ⟨-, hlhs⟩, q, hq, rfl⟩ := hex
    simp only [hq, Option.any_some, decide_eq_true_eq] at hlhs
    subst hlhs
    exact Array.mem_of_getElem? hq
  · intro h
    obtain ⟨p, hp, heq⟩ := Array.mem_iff_getElem.1 h
    have hq : g.productions[p]? = some ⟨n, alt⟩ := by rw [Array.getElem?_eq_getElem hp, heq]
    exact ⟨p, ⟨hp, by simp [hq]⟩, _, hq, rfl⟩

/-- What all terminals of a row and of the productions have in common, all symbols have that derive
from the row. -/
theorem Forest.forall_mem_yield {P : Symbol → Prop}
    (hg : ∀ p ∈ g.productions, ∀ x, .terminal x ∈ p.rhs → P x) (f : g.Forest row)
    (h : ∀ x, .terminal x ∈ row → P x) : ∀ x ∈ f.yield, P x := by
  induction f with
  | nil => simp [Forest.yield]
  | terminal x rest ih =>
    rw [Forest.yield, List.forall_mem_cons]
    exact ⟨h x List.mem_cons_self, ih fun y hy ↦ h y (List.mem_cons_of_mem _ hy)⟩
  | expand n i children rest ihc ihr =>
    rw [Forest.yield, List.forall_mem_append]
    have hp := mem_alternativesOf.1 (List.get_mem (g.alternativesOf n) i)
    exact ⟨ihc (hg _ hp), ihr fun y hy ↦ h y (List.mem_cons_of_mem _ hy)⟩

theorem yields_nil_iff : g.Yields [] w ↔ w = [] := by
  constructor
  · intro h
    obtain ⟨⟨⟩, rfl⟩ := h
    rfl
  · rintro rfl
    exact ⟨.nil, rfl⟩

theorem yields_terminal_cons_iff :
    g.Yields (.terminal x :: row) w ↔ ∃ v, w = x :: v ∧ g.Yields row v := by
  constructor
  · intro h
    obtain ⟨f, rfl⟩ := h
    cases f with
    | terminal _ rest => exact ⟨_, rfl, rest, rfl⟩
  · intro hex
    obtain ⟨v, rfl, rest, rfl⟩ := hex
    exact ⟨.terminal x rest, rfl⟩

theorem yields_nonterminal_cons_iff :
    g.Yields (.nonterminal n :: row) w ↔
      ∃ alt u v, ⟨n, alt⟩ ∈ g.productions ∧ g.Yields alt u ∧ g.Yields row v ∧ w = u ++ v := by
  constructor
  · intro h
    obtain ⟨f, rfl⟩ := h
    cases f with
    | expand _ i children rest =>
      exact ⟨_, _, _, mem_alternativesOf.1 (List.get_mem _ i), ⟨children, rfl⟩, ⟨rest, rfl⟩, rfl⟩
  · intro hex
    obtain ⟨alt, u, v, halt, ⟨children, rfl⟩, ⟨rest, rfl⟩, rfl⟩ := hex
    obtain ⟨i, rfl⟩ := List.get_of_mem (mem_alternativesOf.2 halt)
    exact ⟨.expand n i children rest, rfl⟩

theorem yields_append_iff :
    g.Yields (row ++ row') w ↔ ∃ u v, g.Yields row u ∧ g.Yields row' v ∧ w = u ++ v := by
  constructor
  · intro h
    obtain ⟨f, rfl⟩ := h
    obtain ⟨f₁, f₂, rfl⟩ := f.exists_append
    exact ⟨_, _, ⟨f₁, rfl⟩, ⟨f₂, rfl⟩, Forest.yield_append f₁ f₂⟩
  · intro hex
    obtain ⟨u, v, ⟨f₁, rfl⟩, ⟨f₂, rfl⟩, rfl⟩ := hex
    exact ⟨f₁.append f₂, Forest.yield_append f₁ f₂⟩

theorem yields_nonterminal_iff :
    g.Yields [.nonterminal n] w ↔ ∃ alt, ⟨n, alt⟩ ∈ g.productions ∧ g.Yields alt w := by
  rw [yields_nonterminal_cons_iff]
  constructor
  · intro h
    obtain ⟨alt, u, v, halt, hu, hv, rfl⟩ := h
    rw [yields_nil_iff] at hv
    exact ⟨alt, halt, by rwa [hv, List.append_nil]⟩
  · intro hex
    obtain ⟨alt, halt, hw⟩ := hex
    exact ⟨alt, w, [], halt, hw, yields_nil_iff.2 rfl, (List.append_nil w).symm⟩

theorem yields_wordRow (w : Sample) : g.Yields (wordRow w) w := ⟨.ofWord g w, Forest.yield_ofWord w⟩

theorem Derives.trans {row'' : List Item} (h : g.Derives row row') (h' : g.Derives row' row'') :
    g.Derives row row'' := Relation.ReflTransGen.trans h h'

theorem Derives.append_left (before : List Item) (h : g.Derives row row') :
    g.Derives (before ++ row) (before ++ row') := by
  induction h with
  | refl => exact .refl
  | tail _ h ih =>
    cases h with
    | apply b a hp => exact ih.tail (by simpa using Rewrites.apply (before ++ b) a hp)

theorem Derives.append_right (after : List Item) (h : g.Derives row row') :
    g.Derives (row ++ after) (row' ++ after) := by
  induction h with
  | refl => exact .refl
  | tail _ h ih =>
    cases h with
    | apply b a hp => exact ih.tail (by simpa using Rewrites.apply b (a ++ after) hp)

theorem Derives.apply {alt : List Item} (h : ⟨n, alt⟩ ∈ g.productions) (before after : List Item) :
    g.Derives (before ++ .nonterminal n :: after) (before ++ (alt ++ after)) :=
  .single (.apply before after h)

theorem Forest.derives (f : g.Forest row) : g.Derives row (wordRow f.yield) := by
  induction f with
  | nil => exact .refl
  | terminal x rest ih => exact ih.append_left [.terminal x]
  | @expand row n i children rest ihc ihr =>
    have happly : g.Derives (.nonterminal n :: row) ((g.alternativesOf n).get i ++ row) :=
      .apply (mem_alternativesOf.1 (List.get_mem _ i)) [] row
    have hc := ihc.append_right row
    have hr := ihr.append_left (wordRow children.yield)
    simpa [Forest.yield, wordRow] using (happly.trans hc).trans hr

theorem Yields.of_rewrites (h : g.Rewrites row row') (hw : g.Yields row' w) : g.Yields row w := by
  cases h with
  | apply before after hp =>
    obtain ⟨u, v, hu, hv, rfl⟩ := yields_append_iff.1 hw
    obtain ⟨s, t, hs, ht, rfl⟩ := yields_append_iff.1 hv
    exact yields_append_iff.2 ⟨u, s ++ t, hu,
      yields_nonterminal_cons_iff.2 ⟨_, s, t, hp, hs, ht, rfl⟩, rfl⟩

/-- A row derives a word by rewriting just if some forest of the row yields it. -/
theorem derives_wordRow_iff : g.Derives row (wordRow w) ↔ g.Yields row w := by
  constructor
  · intro h
    induction h using Relation.ReflTransGen.head_induction_on with
    | refl => exact yields_wordRow w
    | head h _ ih => exact ih.of_rewrites h
  · intro hex
    obtain ⟨f, rfl⟩ := hex
    exact f.derives

end LangBench.Grammar
