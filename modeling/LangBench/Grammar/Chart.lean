import LangBench.Grammar.Basic
import Std.Data.HashMap
import Std.Data.HashSet

/-!
Recognising what a grammar derives by Earley's method.

Column `i` of the chart holds the productions that may be in use after `i` symbols of the word, each
with a dot that tells how much of it has been read and with the column in which it was begun. A
column is filled by predicting the productions of a nonterminal after a dot and by completing
productions that have been read to the end. Prediction of a nullable nonterminal also moves the dot
over it, since its completion may come before an item that waits for it.
-/

namespace LangBench.Grammar

open Std (HashMap HashSet)

/-- A production that has been read up to a dot. -/
structure Dotted (g : Grammar) where
  production : Fin g.productions.size
  dot : Nat
  /-- The items that have not been read. -/
  rest : List Item
  /-- The column in which it was begun. -/
  origin : Nat
  split : ∃ read : List Item, read.length = dot ∧ g.productions[production].rhs = read ++ rest

namespace Dotted

variable {g : Grammar}

def start (p : Fin g.productions.size) (i : Nat) : Dotted g where
  production := p
  dot := 0
  rest := g.productions[p].rhs
  origin := i
  split := ⟨[], rfl, rfl⟩

def advance? (d : Dotted g) : Option (Dotted g) :=
  match h : d.rest with
  | [] => none
  | x :: rest => some {
      production := d.production
      dot := d.dot + 1
      rest := rest
      origin := d.origin
      split := by
        obtain ⟨read, hlen, hrow⟩ := d.split
        exact ⟨read ++ [x], by simp [hlen], hrow.trans (by simp [h])⟩ }

def next? (d : Dotted g) : Option Item := d.rest.head?

def awaits? (d : Dotted g) : Option Nat :=
  match d.rest with
  | .nonterminal n :: _ => some n
  | _ => none

def lhs (d : Dotted g) : Nat := g.productions[d.production].lhs

/-- The numbers that tell it from others: production, dot and origin. -/
def key (d : Dotted g) : Nat × Nat × Nat := (d.production, d.dot, d.origin)

theorem key_inj {d e : Dotted g} (h : d.key = e.key) : d = e := by
  obtain ⟨p, dot, rest, origin, hd⟩ := d
  obtain ⟨p', dot', rest', origin', he⟩ := e
  simp only [key, Prod.mk.injEq] at h
  obtain ⟨hp, rfl, rfl⟩ := h
  obtain rfl := Fin.ext hp
  obtain ⟨read, hlen, hrow⟩ := hd
  obtain ⟨read', hlen', hrow'⟩ := he
  obtain rfl := (List.append_inj (hrow.symm.trans hrow') (hlen.trans hlen'.symm)).2
  rfl

end Dotted

/-- The keys of all that can be in column `i`: every dot of every production, begun in this column
or before. -/
def possibleKeys (g : Grammar) (i : Nat) : List (Nat × Nat × Nat) :=
  (List.finRange g.productions.size).flatMap fun p ↦
    (List.range (g.productions[p].rhs.length + 1)).flatMap fun dot ↦
      (List.range (i + 1)).map fun origin ↦ (p.val, dot, origin)

theorem key_mem_possibleKeys {g : Grammar} {i : Nat} {d : Dotted g} (h : d.origin ≤ i) :
    d.key ∈ g.possibleKeys i := by
  obtain ⟨read, hlen, hrow⟩ := d.split
  simp only [possibleKeys, Dotted.key, List.mem_flatMap, List.mem_range, List.mem_map,
    Prod.mk.injEq]
  refine ⟨d.production, List.mem_finRange _, d.dot, ?_, d.origin, Nat.lt_succ_of_le h, rfl, rfl, rfl⟩
  rw [hrow, List.length_append]
  omega

/-- A column of a chart. -/
structure Column (g : Grammar) where
  items : List (Dotted g)
  /-- What waits for each nonterminal. -/
  waiting : HashMap Nat (List (Dotted g))
  mem_waiting : ∀ n d, d ∈ waiting.getD n [] ↔ d ∈ items ∧ d.awaits? = some n

namespace Column

variable {g : Grammar}

def empty : Column g where
  items := []
  waiting := ∅
  mem_waiting := by simp

/-- Put an item into the lists of what waits for which nonterminal. -/
def enlist (d : Dotted g) (waiting : HashMap Nat (List (Dotted g))) :
    HashMap Nat (List (Dotted g)) :=
  match d.awaits? with
  | some n => waiting.insert n (d :: waiting.getD n [])
  | none => waiting

theorem mem_enlist {d e : Dotted g} {n : Nat} {waiting : HashMap Nat (List (Dotted g))} :
    e ∈ (enlist d waiting).getD n [] ↔ (e = d ∧ d.awaits? = some n) ∨ e ∈ waiting.getD n [] := by
  unfold enlist
  split
  · next m hm =>
    rw [HashMap.getD_insert]
    by_cases h : m = n
    · simp [hm, h]
    · simp [hm, h]
  · next hm => simp [hm]

def push (c : Column g) (d : Dotted g) : Column g where
  items := d :: c.items
  waiting := enlist d c.waiting
  mem_waiting n e := by
    rw [mem_enlist, c.mem_waiting, List.mem_cons]
    constructor
    · rintro (⟨rfl, h⟩ | ⟨hm, h⟩)
      · exact ⟨.inl rfl, h⟩
      · exact ⟨.inr hm, h⟩
    · rintro ⟨rfl | hm, h⟩
      · exact .inl ⟨rfl, h⟩
      · exact .inr ⟨hm, h⟩

end Column

/-- A column that is being filled. -/
structure Filling (g : Grammar) where
  column : Column g
  known : HashSet (Nat × Nat × Nat)
  /-- What has not been looked at. -/
  agenda : List (Dotted g)
  key_mem_known : ∀ d : Dotted g, known.contains d.key = true ↔ d ∈ column.items

namespace Filling

variable {g : Grammar}

def empty : Filling g where
  column := .empty
  known := ∅
  agenda := []
  key_mem_known := by simp [Column.empty]

/-- Add an item that is not in column `i`, if it was begun by then. -/
def add (i : Nat) (f : Filling g) (d : Dotted g) : Filling g :=
  if d.origin ≤ i && !f.known.contains d.key then {
    column := f.column.push d
    known := f.known.insert d.key
    agenda := d :: f.agenda
    key_mem_known := fun e ↦ by
      rw [HashSet.contains_insert, Bool.or_eq_true, beq_iff_eq, f.key_mem_known, Column.push,
        List.mem_cons]
      exact or_congr_left ⟨fun h ↦ (Dotted.key_inj h).symm, fun h ↦ h ▸ rfl⟩ }
  else f

def addAll (i : Nat) (f : Filling g) (ds : List (Dotted g)) : Filling g := ds.foldl (add i) f

/-- The number of items that can still be added. -/
def missing (i : Nat) (f : Filling g) : Nat :=
  (g.possibleKeys i).countP fun k ↦ !f.known.contains k

/-- A bound on the number of items that have yet to be looked at. -/
def work (i : Nat) (f : Filling g) : Nat := f.missing i + f.agenda.length

theorem countP_insert_lt {keys : List (Nat × Nat × Nat)} {known : HashSet (Nat × Nat × Nat)}
    {k : Nat × Nat × Nat} (hmem : k ∈ keys) (hk : known.contains k = false) :
    keys.countP (fun x ↦ !(known.insert k).contains x) <
      keys.countP fun x ↦ !known.contains x := by
  have hsub : ∀ l : List (Nat × Nat × Nat), l.countP (fun x ↦ !(known.insert k).contains x) ≤
      l.countP (fun x ↦ !known.contains x) := fun l ↦ by
    refine List.countP_mono_left fun x _ hx ↦ ?_
    simp_all
  obtain ⟨l₁, l₂, rfl⟩ := List.append_of_mem hmem
  have h₁ := hsub l₁
  have h₂ := hsub l₂
  have hself : (known.insert k).contains k = true := by simp
  simp only [List.countP_append, List.countP_cons, hk, hself, Bool.not_true, Bool.not_false,
    Bool.false_eq_true, if_true, if_false]
  omega

theorem work_add_le (i : Nat) (f : Filling g) (d : Dotted g) : (f.add i d).work i ≤ f.work i := by
  unfold add
  split
  · next h =>
    rw [Bool.and_eq_true, Bool.not_eq_true', decide_eq_true_eq] at h
    have := countP_insert_lt (key_mem_possibleKeys h.1) h.2
    simp only [work, missing, List.length_cons]
    omega
  · exact Nat.le_refl _

theorem work_addAll_le (i : Nat) (f : Filling g) (ds : List (Dotted g)) :
    (f.addAll i ds).work i ≤ f.work i := by
  induction ds generalizing f with
  | nil => exact Nat.le_refl _
  | cons d ds ih => exact Nat.le_trans (ih _) (work_add_le i f d)

end Filling

/-- The beginnings of the productions of a nonterminal in column `i`. -/
def predictions (g : Grammar) (i n : Nat) : List (Dotted g) :=
  (g.productionsOf n).filterMap fun p ↦
    if h : p < g.productions.size then some (.start ⟨p, h⟩ i) else none

/-- What waits in a column for a nonterminal, with the dot moved over it. -/
def completions {g : Grammar} (n : Nat) (c : Column g) : List (Dotted g) :=
  (c.waiting.getD n []).filterMap Dotted.advance?

/-- What an item of column `i` adds to that column. The columns before it are `earlier`. -/
def consequences {g : Grammar} (earlier : Array (Column g)) (i : Nat) (c : Column g)
    (d : Dotted g) : List (Dotted g) :=
  match d.rest with
  | .terminal _ :: _ => []
  | .nonterminal n :: _ =>
    g.predictions i n ++ if g.isNullable n then d.advance?.toList else []
  | [] => completions d.lhs (earlier[d.origin]?.getD c)

/-- Look at what is on the agenda of column `i` until it is empty. -/
def saturate {g : Grammar} (earlier : Array (Column g)) (i : Nat) (f : Filling g) : Column g :=
  match h : f.agenda with
  | [] => f.column
  | d :: agenda =>
    have : (Filling.addAll i { f with agenda } (consequences earlier i f.column d)).work i
        < f.work i := by
      refine Nat.lt_of_le_of_lt (Filling.work_addAll_le _ _ _) ?_
      simp [Filling.work, Filling.missing, h]
    saturate earlier i (.addAll i { f with agenda } (consequences earlier i f.column d))
termination_by f.work i

/-- What of a column goes on after a symbol, with the dot moved over it. -/
def scan {g : Grammar} (x : Symbol) (c : Column g) : List (Dotted g) :=
  (c.items.filter fun d ↦ d.next? = some (.terminal x)).filterMap Dotted.advance?

/-- The columns from column `earlier.size` on, for the rest of a word. -/
def extendChart {g : Grammar} (earlier : Array (Column g)) (seeds : List (Dotted g))
    (word : Sample) : Array (Column g) :=
  let column := saturate earlier earlier.size (.addAll earlier.size .empty seeds)
  match word with
  | [] => earlier.push column
  | x :: rest => extendChart (earlier.push column) (scan x column) rest

/-- The chart of a word: one column for each of its prefixes. -/
def chart (g : Grammar) (word : Sample) : Array (Column g) :=
  extendChart #[] (g.predictions 0 g.start) word

/-- Whether an item tells that the start has been read from the beginning. -/
def isAccepting {g : Grammar} (d : Dotted g) : Bool :=
  d.origin = 0 && d.lhs = g.start && d.rest.isEmpty

def recognizes (g : Grammar) (word : Sample) : Bool :=
  (g.chart word).back?.any fun c ↦ c.items.any isAccepting

end LangBench.Grammar
