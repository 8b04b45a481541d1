import LangBench.Proofs.Grammar.Recognition
import Mathlib

/-!
What the columns of a chart hold, in terms of derivations alone.

Column `i` holds a production with a dot and with column `j` as its origin just if what is before the
dot derives the part of the word from `j` to `i`, and the start derives the part before `j` followed
by the left side and some row. That such productions can be deduced is an induction on how the start
derives the row in which the left side stands.
-/

namespace LangBench.Grammar

variable {g : Grammar} {w : Sample} {i : Nat}

/-- An item of two rows put together is an item of one of them. -/
theorem append_eq_append_cons {row row' before after : List Item} {x : Item}
    (h : row ++ row' = before ++ x :: after) :
    (∃ rest, row = before ++ x :: rest) ∨
      ∃ rest, before = row ++ rest ∧ row' = rest ++ x :: after := by
  rcases List.append_eq_append_iff.1 h with ⟨rest, hbefore, hrow'⟩ | ⟨rest, hrow, hx⟩
  · exact .inr ⟨rest, hbefore, hrow'⟩
  · cases rest with
    | nil => exact .inr ⟨[], by simpa using hrow.symm, by simpa using hx.symm⟩
    | cons y rest =>
      obtain ⟨rfl, -⟩ := List.cons.inj hx
      exact .inl ⟨rest, hrow⟩

/-- What the beginning of a row yields of the word takes a production of the nonterminal after it to
the column up to which the word has been read. -/
theorem Entry.predicted {q : Production} {read rest : List Item} {n : Nat} {u v : Sample}
    (hq : q ∈ g.productions) (hrhs : q.rhs = read ++ .nonterminal n :: rest)
    (hin : ∀ p, (Dotted.start p u.length).lhs = q.lhs → g.Entry w u.length (.start p u.length))
    (hv : g.Yields read v) (hw : u ++ v <+: w) (p : Fin g.productions.size)
    (hp : (Dotted.start p (u ++ v).length).lhs = n) :
    g.Entry w (u ++ v).length (.start p (u ++ v).length) := by
  obtain ⟨tree, rfl⟩ := hv
  obtain ⟨p', hlhs, hrow⟩ := Dotted.exists_start hq u.length
  have hprefix : tree.yield <+: w.drop u.length := by
    obtain ⟨later, rfl⟩ := hw
    rw [List.append_assoc, List.drop_left]
    exact List.prefix_append _ _
  obtain ⟨d, hd, -, hrest, -⟩ := (hin p' hlhs).exists_advance tree (hrow.trans hrhs) hprefix
  rw [List.length_append] at hp ⊢
  exact .predict hd (Dotted.awaits?_eq_some_iff.2 ⟨rest, hrest⟩) p hp

/-- The productions of a nonterminal can be deduced to be in a column if the start derives a row in
which the nonterminal stands behind items that yield the word up to there. -/
theorem Entry.of_inUse {row before after : List Item} {n : Nat} {u : Sample}
    (h : g.Derives [.nonterminal g.start] row) (hrow : row = before ++ .nonterminal n :: after)
    (hbefore : g.Yields before u) (hu : u <+: w) (p : Fin g.productions.size)
    (hp : (Dotted.start p u.length).lhs = n) : g.Entry w u.length (.start p u.length) := by
  induction h generalizing before after n u p with
  | refl =>
    cases before with
    | nil =>
      obtain rfl := yields_nil_iff.1 hbefore
      obtain ⟨heq, -⟩ := List.cons.inj hrow
      exact .start p (hp.trans (Item.nonterminal.inj heq).symm)
    | cons => simp at hrow
  | tail _ hstep ih =>
    -- the nonterminal stands before the row that was put in, in it, or after it
    obtain ⟨b, a, hq⟩ := hstep
    rcases append_eq_append_cons hrow with ⟨rest, rfl⟩ | ⟨rest, rfl, hrest⟩
    · exact ih (List.append_assoc _ _ _) hbefore hu p hp
    · rcases append_eq_append_cons hrest with ⟨rest', hrhs⟩ | ⟨rest', rfl, rfl⟩
      · obtain ⟨u, v, hb, hv, rfl⟩ := yields_append_iff.1 hbefore
        have hin := ih rfl hb ((List.prefix_append u v).trans hu)
        exact .predicted hq hrhs hin hv hu p hp
      · have hreplaced : g.Yields (b ++ .nonterminal _ :: rest') u :=
          hbefore.of_rewrites (.apply b rest' hq)
        exact ih (List.append_assoc _ (_ :: rest') _).symm hreplaced hu p hp

/-- What can be deduced to be in column `i` is what has been read up to there and was in use where it
was begun. -/
theorem entry_iff {d : Dotted g} (hi : i ≤ w.length) : g.Entry w i d ↔
    d.origin ≤ i ∧ g.Yields d.read (between w d.origin i) ∧
      ∃ after, g.Derives [.nonterminal g.start]
        (wordRow (w.take d.origin) ++ .nonterminal d.lhs :: after) := by
  constructor
  · intro h
    exact ⟨h.sound.origin_le, h.sound.yields, h.sound.inUse⟩
  · rintro ⟨horigin, ⟨tree, htree⟩, after, hinUse⟩
    have hlength : (w.take d.origin).length = d.origin := by
      rw [List.length_take]
      omega
    have hstart : g.Entry w d.origin (.start d.production d.origin) := by
      have h := Entry.of_inUse hinUse rfl (yields_wordRow _) (List.take_prefix d.origin w)
        d.production
      rw [hlength] at h
      exact h rfl
    have hprefix : tree.yield <+: w.drop d.origin := by
      rw [htree, between, List.drop_take]
      exact List.take_prefix _ _
    have hend : d.origin + tree.yield.length = i := by
      rw [htree, between, List.length_drop, List.length_take]
      omega
    obtain ⟨e, he, hp, hrest, ho⟩ := hstart.exists_advance tree d.rhs_eq hprefix
    have heq : e = d := Dotted.ext_rest hp hrest ho
    rwa [heq, hend] at he

/-- A column holds a production with a dot and an origin just if what is before the dot derives the
part of the word since the origin, and the start derives a row in which the left side follows the
part before it. There is a column for every place of the word. -/
theorem columns_are_exact {text : String} {alphabet : Option (List String)} {g : Grammar}
    (h : parse? text alphabet = .ok g) (w : Sample) :
    (g.chart w).size = w.length + 1 ∧
    ∀ i c, (g.chart w)[i]? = some c →
      ∀ p lhs read rest, g.productions[p]? = some ⟨lhs, read ++ rest⟩ →
      ∀ j, (p, read.length, j) ∈ c.items.map Dotted.key ↔
        j ≤ i ∧ g.Derives read (wordRow (between w j i)) ∧
          ∃ after, g.Derives [.nonterminal g.start]
            (wordRow (w.take j) ++ .nonterminal lhs :: after) := by
  obtain ⟨hsize, hexact⟩ := exact_chart (wellFormed_of_parse? h) w
  refine ⟨hsize, fun i c hc p lhs read rest hp j ↦ ?_⟩
  have hi : i ≤ w.length := by
    obtain ⟨hlt, -⟩ := Array.getElem?_eq_some_iff.1 hc
    omega
  obtain ⟨hlt, hp⟩ := Array.getElem?_eq_some_iff.1 hp
  let d : Dotted g := ⟨⟨p, hlt⟩, read.length, rest, j, read, rfl, congrArg Production.rhs hp⟩
  have hlhs : d.lhs = lhs := congrArg Production.lhs hp
  have hread : d.read = read :=
    List.append_cancel_right (d.rhs_eq.symm.trans (congrArg Production.rhs hp))
  have hinjective : Function.Injective (Dotted.key (g := g)) := fun _ _ ↦ Dotted.key_inj
  have hkey : d.key = (p, read.length, j) := rfl
  rw [← hkey, List.mem_map_of_injective hinjective, hexact i c hc, entry_iff hi, hread, hlhs,
    derives_wordRow_iff]

/-- Both items of a row may be empty, so the letter may come of either of them. -/
theorem columns_are_exact_nullable :
    ∃ g, parse? "S -> B\nB -> A A\nA -> 'a' |" none = .ok g ∧ (g.chart [0]).size = 2 ∧
      ∃ c, (g.chart [0])[1]? = some c ∧ (1, 2, 0) ∈ c.items.map Dotted.key ∧
        g.Derives [.nonterminal 2, .nonterminal 2] (wordRow [0]) ∧
        ∃ after, g.Derives [.nonterminal g.start] (.nonterminal 1 :: after) := by
  obtain ⟨g, h, hrow, hcolumn⟩ :
      ∃ g, parse? "S -> B\nB -> A A\nA -> 'a' |" none = .ok g ∧
        g.productions[1]? = some ⟨1, [.nonterminal 2, .nonterminal 2] ++ []⟩ ∧
        ((g.chart [0])[1]?.any fun c ↦ (c.items.map Dotted.key).contains (1, 2, 0)) = true :=
    ⟨_, by cbv, by cbv, by cbv⟩
  obtain ⟨c, hc, hkey⟩ := (Option.any_eq_true _ _).1 hcolumn
  rw [List.contains_iff_mem] at hkey
  obtain ⟨hsize, hexact⟩ := columns_are_exact h [0]
  obtain ⟨-, hread, hinUse⟩ := (hexact 1 c hc 1 1 _ [] hrow 0).1 hkey
  exact ⟨g, h, hsize, c, hc, hkey, hread, hinUse⟩

end LangBench.Grammar
