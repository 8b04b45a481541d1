import LangBench.Grammar.Chart
import LangBench.Proofs.Grammar.LeastYield

/-!
The entries of Earley's columns, as they are deduced from each other.

An entry tells that what has been read of a production yields the part of the word from the column
in which it was begun, and that the start derives a row in which the production is in use there.
-/

namespace LangBench.Grammar

/-- The part of a word from place `j` to place `i`. -/
def between (w : Sample) (j i : Nat) : Sample := (w.take i).drop j

@[simp] theorem between_self (w : Sample) (i : Nat) : between w i i = [] :=
  List.drop_eq_nil_of_le (List.length_take_le i w)

theorem between_zero (w : Sample) (i : Nat) : between w 0 i = w.take i := rfl

theorem take_append_between (w : Sample) {k i : Nat} (h : k ≤ i) :
    w.take k ++ between w k i = w.take i := by
  have htake := List.take_append_drop k (w.take i)
  rwa [List.take_take, Nat.min_eq_left h] at htake

theorem between_append {w : Sample} {j k i : Nat} (hjk : j ≤ k) (hki : k ≤ i) (hi : i ≤ w.length) :
    between w j k ++ between w k i = between w j i := by
  have hj : j ≤ (w.take k).length := by
    rw [List.length_take]
    omega
  rw [between, between, between, ← List.drop_append_of_le_length hj, ← between,
    take_append_between w hki]

theorem between_succ {w : Sample} {i : Nat} {x : Symbol} (h : w[i]? = some x) :
    between w i (i + 1) = [x] := by
  obtain ⟨hi, -⟩ := List.getElem?_eq_some_iff.1 h
  have hlen : i ≤ (w.take i).length := by
    rw [List.length_take]
    omega
  have htake : w.take (i + 1) = w.take i ++ [x] := by
    rw [List.take_add_one, h, Option.toList_some]
  rw [between, htake, List.drop_append_of_le_length hlen, ← between, between_self, List.nil_append]

namespace Dotted

variable {g : Grammar} {d e : Dotted g} {n : Nat} {x : Symbol}

def rhs (d : Dotted g) : List Item := (start d.production d.origin).rest

def read (d : Dotted g) : List Item := d.rhs.take d.dot

theorem rhs_eq (d : Dotted g) : d.rhs = d.read ++ d.rest := by
  obtain ⟨read, hlen, hrow⟩ := d.split
  have hrhs : d.rhs = read ++ d.rest := hrow
  rw [Dotted.read, hrhs, ← hlen, List.take_left]

theorem rhs_congr (h : d.production = e.production) : d.rhs = e.rhs :=
  congrArg (fun p ↦ (start p 0).rest) h

theorem lhs_congr (h : d.production = e.production) : d.lhs = e.lhs :=
  congrArg (fun p ↦ (start p 0).lhs) h

theorem mem_productions (d : Dotted g) : ⟨d.lhs, d.read ++ d.rest⟩ ∈ g.productions := by
  rw [← d.rhs_eq]
  exact Array.getElem_mem d.production.isLt

theorem exists_start {row : List Item} (h : ⟨n, row⟩ ∈ g.productions) (i : Nat) :
    ∃ p : Fin g.productions.size, (start p i).lhs = n ∧ (start p i).rest = row := by
  obtain ⟨p, hp, heq⟩ := Array.mem_iff_getElem.1 h
  exact ⟨⟨p, hp⟩, congrArg Production.lhs heq, congrArg Production.rhs heq⟩

/-- The dot stands where the rest of the production begins. -/
theorem ext_rest (hp : d.production = e.production) (hr : d.rest = e.rest)
    (ho : d.origin = e.origin) : d = e := by
  refine key_inj ?_
  obtain ⟨read, hlen, hrow⟩ := d.split
  obtain ⟨read', hlen', hrow'⟩ := e.split
  have hdot : d.dot = e.dot := by
    have h : d.rhs.length = _ := congrArg List.length hrow
    have h' : e.rhs.length = _ := congrArg List.length hrow'
    rw [List.length_append] at h h'
    rw [rhs_congr hp, hr] at h
    omega
  simp only [key, hp, hdot, ho]

theorem advance?_eq_some_iff : d.advance? = some e ↔
    ∃ item, d.rest = item :: e.rest ∧ d.production = e.production ∧ d.origin = e.origin := by
  unfold advance?
  split
  · next h => simp [h]
  · next item rest h =>
    constructor
    · intro heq
      obtain rfl := Option.some.inj heq
      exact ⟨item, h, rfl, rfl⟩
    · intro hex
      obtain ⟨item', hr, hp, ho⟩ := hex
      rw [h, List.cons.injEq] at hr
      exact congrArg some (ext_rest hp hr.2 ho)

theorem exists_advance {item : Item} {row : List Item} (h : d.rest = item :: row) :
    ∃ e, d.advance? = some e ∧ e.production = d.production ∧ e.rest = row ∧
      e.origin = d.origin := by
  unfold advance?
  split
  · next h' => simp [h] at h'
  · next h' =>
    obtain ⟨rfl, rfl⟩ := List.cons.inj (h.symm.trans h')
    exact ⟨_, rfl, rfl, rfl, rfl⟩

theorem read_of_advance {item : Item} (h : d.rest = item :: e.rest)
    (hp : d.production = e.production) : e.read = d.read ++ [item] := by
  have hd := (e.rhs_eq.symm.trans (rhs_congr hp).symm).trans d.rhs_eq
  rw [h, List.append_cons] at hd
  exact List.append_cancel_right hd

theorem awaits?_eq_some_iff : d.awaits? = some n ↔ ∃ row, d.rest = .nonterminal n :: row := by
  unfold awaits?
  split
  · next h => simp [h]
  · next h =>
    constructor
    · simp
    · intro hex
      obtain ⟨row, hrow⟩ := hex
      exact absurd hrow (h n row)

theorem next?_eq_some_iff {item : Item} : d.next? = some item ↔ ∃ row, d.rest = item :: row := by
  unfold next?
  cases d.rest <;> simp

@[simp] theorem origin_start (p : Fin g.productions.size) (i : Nat) : (start p i).origin = i := rfl

end Dotted

/-- What can be deduced to be in column `i` for a word. -/
inductive Entry (g : Grammar) (w : Sample) : Nat → Dotted g → Prop
  | start (p : Fin g.productions.size) (hp : (Dotted.start p 0).lhs = g.start) :
      Entry g w 0 (.start p 0)
  | predict {i n : Nat} {d : Dotted g} (hd : Entry g w i d) (hn : d.awaits? = some n)
      (p : Fin g.productions.size) (hp : (Dotted.start p i).lhs = n) : Entry g w i (.start p i)
  | scan {i : Nat} {d e : Dotted g} {x : Symbol} (hd : Entry g w i d) (hx : w[i]? = some x)
      (hn : d.next? = some (.terminal x)) (he : d.advance? = some e) : Entry g w (i + 1) e
  | complete {i : Nat} {c d e : Dotted g} (hc : Entry g w i c) (hr : c.rest = [])
      (hd : Entry g w c.origin d) (hn : d.awaits? = some c.lhs) (he : d.advance? = some e) :
      Entry g w i e

namespace Entry

variable {g : Grammar} {w : Sample} {i : Nat} {d e : Dotted g}

structure Sound (g : Grammar) (w : Sample) (i : Nat) (d : Dotted g) : Prop where
  origin_le : d.origin ≤ i
  le_length : i ≤ w.length
  yields : g.Yields d.read (between w d.origin i)
  inUse : ∃ after, g.Derives [.nonterminal g.start]
    (wordRow (w.take d.origin) ++ .nonterminal d.lhs :: after)

theorem Sound.advance {item : Item} {k : Nat} (h : Sound g w k d) (hki : k ≤ i)
    (hi : i ≤ w.length) (hr : d.rest = item :: e.rest) (hp : d.production = e.production)
    (ho : d.origin = e.origin) (hy : g.Yields [item] (between w k i)) : Sound g w i e where
  origin_le := ho ▸ Nat.le_trans h.origin_le hki
  le_length := hi
  yields := by
    rw [Dotted.read_of_advance hr hp, ← ho, ← between_append h.origin_le hki hi]
    exact yields_append_iff.2 ⟨_, _, h.yields, hy, rfl⟩
  inUse := by
    rw [← ho, ← Dotted.lhs_congr hp]
    exact h.inUse

theorem Sound.yields_lhs (h : Sound g w i d) (hr : d.rest = []) :
    g.Yields [.nonterminal d.lhs] (between w d.origin i) := by
  have hmem := d.mem_productions
  rw [hr, List.append_nil] at hmem
  exact yields_nonterminal_iff.2 ⟨d.read, hmem, h.yields⟩

theorem sound (h : g.Entry w i d) : Sound g w i d := by
  induction h with
  | start p hp =>
    refine ⟨Nat.le_refl _, Nat.zero_le _, yields_nil_iff.2 rfl, [], ?_⟩
    rw [hp]
    exact .refl
  | @predict i n d hd hn p hp ih =>
    obtain ⟨row, hrow⟩ := Dotted.awaits?_eq_some_iff.1 hn
    refine ⟨Nat.le_refl _, ih.le_length, yields_nil_iff.2 (between_self w i), ?_⟩
    obtain ⟨after, hafter⟩ := ih.inUse
    refine ⟨row ++ after, ?_⟩
    have happly := Derives.apply d.mem_productions (wordRow (w.take d.origin)) after
    have hread := (derives_wordRow_iff.2 ih.yields).append_right (.nonterminal n :: row ++ after)
    have hderives := (hafter.trans happly).trans
      (by simpa [hrow] using hread.append_left (wordRow (w.take d.origin)))
    have htake : wordRow (w.take i) =
        wordRow (w.take d.origin) ++ wordRow (between w d.origin i) := by
      rw [← take_append_between w ih.origin_le, wordRow, List.map_append]
      rfl
    rw [hp, Dotted.origin_start, htake]
    simpa using hderives
  | scan hd hx hn he ih =>
    obtain ⟨item, hr, hp, ho⟩ := Dotted.advance?_eq_some_iff.1 he
    obtain ⟨row, hrow⟩ := Dotted.next?_eq_some_iff.1 hn
    obtain rfl := (List.cons.inj (hr.symm.trans hrow)).1
    obtain ⟨hi, -⟩ := List.getElem?_eq_some_iff.1 hx
    refine ih.advance (Nat.le_succ _) hi hr hp ho ?_
    rw [between_succ hx]
    exact yields_wordRow [_]
  | complete hc hr hd hn he ihc ihd =>
    obtain ⟨item, hr', hp, ho⟩ := Dotted.advance?_eq_some_iff.1 he
    obtain ⟨row, hrow⟩ := Dotted.awaits?_eq_some_iff.1 hn
    obtain rfl := (List.cons.inj (hr'.symm.trans hrow)).1
    exact ihd.advance ihc.origin_le ihc.le_length hr' hp ho (ihc.yields_lhs hr)

/-- If what comes next of an entry yields the next symbols of the word, the entry moves on over
them. -/
theorem exists_advance {row rest : List Item} (f : g.Forest row) (hd : g.Entry w i d)
    (hr : d.rest = row ++ rest) (hw : f.yield <+: w.drop i) :
    ∃ e, g.Entry w (i + f.yield.length) e ∧ e.production = d.production ∧ e.rest = rest ∧
      e.origin = d.origin := by
  induction f generalizing i d rest with
  | nil => exact ⟨d, hd, rfl, hr, rfl⟩
  | terminal x f ih =>
    obtain ⟨v, hv⟩ := hw
    have hx : w[i]? = some x := by
      rw [← List.head?_drop, ← hv]
      rfl
    obtain ⟨e, he, hp, hrest, ho⟩ := Dotted.exists_advance hr
    have hnext : d.next? = some (.terminal x) := Dotted.next?_eq_some_iff.2 ⟨_, hr⟩
    have hdrop : f.yield <+: w.drop (i + 1) := by
      rw [← List.drop_drop, ← hv]
      exact ⟨v, rfl⟩
    obtain ⟨e', he', hp', hrest', ho'⟩ := ih (.scan hd hx hnext he) hrest hdrop
    refine ⟨e', ?_, hp'.trans hp, hrest', ho'.trans ho⟩
    rwa [Forest.yield, List.length_cons, Nat.add_comm f.yield.length, ← Nat.add_assoc]
  | expand n k children f ihc ihr =>
    obtain ⟨v, hv⟩ := hw
    rw [Forest.yield, List.append_assoc] at hv
    -- the production of the tree is predicted, read to its end and completed
    obtain ⟨p, hlhs, hrow⟩ := Dotted.exists_start
      (mem_alternativesOf.1 (List.get_mem (g.alternativesOf n) k)) i
    have hawaits : d.awaits? = some n := Dotted.awaits?_eq_some_iff.2 ⟨_, hr⟩
    have hstart : g.Entry w i (.start p i) := .predict hd hawaits p hlhs
    obtain ⟨c, hc, hcp, hcrest, hco⟩ :=
      ihc hstart (hrow.trans (List.append_nil _).symm) ⟨_, hv⟩
    obtain ⟨e, he, hep, herest, heo⟩ := Dotted.exists_advance hr
    have hcomplete : g.Entry w (i + children.yield.length) e :=
      .complete hc hcrest (by rwa [hco]) (by rwa [Dotted.lhs_congr hcp, hlhs]) he
    have hdrop : f.yield <+: w.drop (i + children.yield.length) := by
      rw [← List.drop_drop, ← hv, List.drop_left]
      exact ⟨v, rfl⟩
    obtain ⟨e', he', hp', hrest', ho'⟩ := ihr hcomplete herest hdrop
    refine ⟨e', ?_, hp'.trans hep, hrest', ho'.trans heo⟩
    rwa [Forest.yield, List.length_append, ← Nat.add_assoc]

end Entry

end LangBench.Grammar
