import LangBench.Sample
import Mathlib.Data.List.Count
import Mathlib.Data.List.Nodup

/-!
Balanced rows of brackets of two kinds, 0 with 1 and 2 with 3.

Whether a row is balanced is checked with a stack. A row that is balanced and not empty is an
opening bracket, a balanced row, the closing bracket and another balanced row, in one way only. It is
higher by 1 than the higher of these two rows.
-/

namespace LangBench.Brackets

variable {x y : Symbol} {u u' v v' w : Sample} {stack : List Symbol} {d : Nat}

/-- The bracket that closes an opening one. -/
def closer? (x : Symbol) : Option Symbol :=
  if x = 0 then some 1 else if x = 2 then some 3 else none

theorem closer?_eq_some_iff : closer? x = some y ↔ x = 0 ∧ y = 1 ∨ x = 2 ∧ y = 3 := by
  unfold closer?
  split
  · next h => simp [h, eq_comm]
  · next h =>
    split
    · next h' => simp [h', eq_comm]
    · next h' => simp [h, h']

theorem closer?_of_closer (h : closer? x = some y) : closer? y = none := by
  obtain ⟨-, rfl⟩ | ⟨-, rfl⟩ := closer?_eq_some_iff.1 h <;> rfl

/-- Read a row with a stack of what closes the open brackets, the last opened on top: whether each
closing bracket is the one on top and nothing is open in the end. -/
def consumes : List Symbol → Sample → Bool
  | stack, [] => stack.isEmpty
  | stack, x :: w =>
    match closer? x, stack with
    | some y, stack => consumes (y :: stack) w
    | none, y :: stack => x = y && consumes stack w
    | none, [] => false

theorem consumes_open (h : closer? x = some y) :
    consumes stack (x :: w) = consumes (y :: stack) w := by
  simp [consumes, h]

theorem consumes_close (h : closer? x = none) :
    consumes (y :: stack) (x :: w) = (decide (x = y) && consumes stack w) := by
  simp [consumes, h]

theorem consumes_nil_close (h : closer? x = none) : consumes [] (x :: w) = false := by
  simp [consumes, h]

inductive Balanced : Sample → Prop
  | empty : Balanced []
  | pair {x y : Symbol} {u v : Sample} :
      closer? x = some y → Balanced u → Balanced v → Balanced (x :: (u ++ y :: v))

theorem Balanced.consumes_append (h : Balanced u) (stack : List Symbol) (w : Sample) :
    consumes stack (u ++ w) = consumes stack w := by
  induction h generalizing stack w with
  | empty => rfl
  | pair h _ _ ihu ihv =>
    rw [List.cons_append, consumes_open h, List.append_assoc, ihu, List.cons_append,
      consumes_close (closer?_of_closer h), ihv]
    simp

/-- What is on top of the stack is closed after a balanced row. -/
theorem exists_balanced_of_consumes (h : consumes (y :: stack) w = true) :
    ∃ u v, w = u ++ y :: v ∧ Balanced u ∧ consumes stack v = true := by
  induction hn : w.length using Nat.strongRecOn generalizing w y stack with
  | ind n ih =>
  subst hn
  cases w with
  | nil => simp [consumes] at h
  | cons x w =>
    cases hx : closer? x with
    | none =>
      rw [consumes_close hx, Bool.and_eq_true, decide_eq_true_eq] at h
      obtain ⟨rfl, h⟩ := h
      exact ⟨[], w, rfl, .empty, h⟩
    | some z =>
      -- up to what closes `x`, and from there on up to what closes `y`
      rw [consumes_open hx] at h
      obtain ⟨u, v, rfl, hu, h⟩ := ih w.length (by simp) h rfl
      obtain ⟨u', v', rfl, hu', h⟩ := ih v.length (by simp; omega) h rfl
      exact ⟨x :: (u ++ z :: u'), v', by simp, .pair hx hu hu', h⟩

theorem consumes_iff_balanced : consumes [] w = true ↔ Balanced w := by
  constructor
  · intro h
    induction hn : w.length using Nat.strongRecOn generalizing w with
    | ind n ih =>
    subst hn
    cases w with
    | nil => exact .empty
    | cons x w =>
      cases hx : closer? x with
      | none => simp [consumes_nil_close hx] at h
      | some y =>
        rw [consumes_open hx] at h
        obtain ⟨u, v, rfl, hu, h⟩ := exists_balanced_of_consumes h
        exact .pair hx hu (ih v.length (by simp; omega) h rfl)
  · intro h
    simpa [consumes] using h.consumes_append [] []

theorem Balanced.not_append_close (hu : Balanced u) (hx : closer? x = none) :
    ¬ Balanced (u ++ x :: w) := by
  intro h
  rw [← consumes_iff_balanced, hu.consumes_append, consumes_nil_close hx] at h
  exact Bool.noConfusion h

/-- The balanced row before a closing bracket is told by the whole row. -/
theorem Balanced.append_close_inj (hu : Balanced u) (hu' : Balanced u') (hx : closer? x = none)
    (h : u ++ x :: v = u' ++ x :: v') : u = u' ∧ v = v' := by
  obtain ⟨t, ht, hv⟩ | ⟨t, ht, hv⟩ := List.append_eq_append_iff.1 h
  · cases t with
    | nil => simp_all
    | cons z t =>
      -- the longer of the two would go on with the closing bracket
      obtain ⟨rfl, -⟩ := List.cons.inj hv
      exact absurd (ht ▸ hu') (hu.not_append_close hx)
  · cases t with
    | nil => simp_all
    | cons z t =>
      obtain ⟨rfl, -⟩ := List.cons.inj hv
      exact absurd (ht ▸ hu) (hu'.not_append_close hx)

/-- Put a bracket before a row. The heights are those of the balanced parts of the row: up to the
first bracket that closes none of it, from there up to the next one, and so on to the end. -/
def nest (x : Symbol) (heights : List Nat) : List Nat :=
  match closer? x, heights with
  | some _, inner :: after :: heights => (1 + max inner after) :: heights
  | _, heights => 1 :: heights

theorem nest_open (h : closer? x = some y) (inner after : Nat) (heights : List Nat) :
    nest x (inner :: after :: heights) = (1 + max inner after) :: heights := by
  simp [nest, h]

theorem nest_close (h : closer? x = none) (heights : List Nat) : nest x heights = 1 :: heights := by
  simp [nest, h]

/-- The height of a balanced row, which is read from its end. -/
def height (w : Sample) : Nat := (w.foldr nest [1]).headD 1

theorem foldr_nest_pair {m n : Nat} (hxy : closer? x = some y)
    (hu : ∀ heights, u.foldr nest (1 :: heights) = m :: heights)
    (hv : ∀ heights, v.foldr nest (1 :: heights) = n :: heights) (heights : List Nat) :
    (x :: (u ++ y :: v)).foldr nest (1 :: heights) = (1 + max m n) :: heights := by
  rw [List.foldr_cons, List.foldr_append, List.foldr_cons, hv, nest_close (closer?_of_closer hxy),
    hu, nest_open hxy]

theorem Balanced.foldr_nest (h : Balanced u) (heights : List Nat) :
    u.foldr nest (1 :: heights) = height u :: heights := by
  induction h generalizing heights with
  | empty => rfl
  | pair hxy _ _ ihu ihv =>
    have hfold := foldr_nest_pair hxy ihu ihv
    rw [height, hfold, hfold]
    rfl

theorem height_empty : height [] = 1 := rfl

theorem height_pair (hxy : closer? x = some y) (hu : Balanced u) (hv : Balanced v) :
    height (x :: (u ++ y :: v)) = 1 + max (height u) (height v) := by
  rw [height, foldr_nest_pair hxy hu.foldr_nest hv.foldr_nest]
  rfl

example : height [0, 1, 2, 3] = 3 := by decide

def pairs (x y : Symbol) (rows : List Sample) : List Sample :=
  rows.flatMap fun u ↦ rows.map fun v ↦ x :: (u ++ y :: v)

theorem mem_pairs_iff {rows : List Sample} :
    w ∈ pairs x y rows ↔ ∃ u ∈ rows, ∃ v ∈ rows, x :: (u ++ y :: v) = w := by
  simp [pairs]

/-- The balanced rows up to a height. -/
def rowsUpTo : Nat → List Sample
  | 0 => []
  | d + 1 => pairs 0 1 (rowsUpTo d) ++ (pairs 2 3 (rowsUpTo d) ++ [[]])

theorem mem_rowsUpTo_succ_iff : w ∈ rowsUpTo (d + 1) ↔
    w = [] ∨ ∃ x y, closer? x = some y ∧ w ∈ pairs x y (rowsUpTo d) := by
  rw [rowsUpTo, List.mem_append, List.mem_append, List.mem_singleton]
  constructor
  · rintro (h | h | h)
    · exact .inr ⟨0, 1, rfl, h⟩
    · exact .inr ⟨2, 3, rfl, h⟩
    · exact .inl h
  · rintro (h | ⟨x, y, hxy, h⟩)
    · exact .inr (.inr h)
    · obtain ⟨rfl, rfl⟩ | ⟨rfl, rfl⟩ := closer?_eq_some_iff.1 hxy
      · exact .inl h
      · exact .inr (.inl h)

theorem mem_rowsUpTo_iff : w ∈ rowsUpTo d ↔ Balanced w ∧ height w ≤ d := by
  constructor
  · intro h
    induction d generalizing w with
    | zero => cases h
    | succ d ih =>
      obtain rfl | ⟨x, y, hxy, h⟩ := mem_rowsUpTo_succ_iff.1 h
      · exact ⟨.empty, Nat.succ_le_succ (Nat.zero_le d)⟩
      · obtain ⟨u, hu, v, hv, rfl⟩ := mem_pairs_iff.1 h
        obtain ⟨hu, hud⟩ := ih hu
        obtain ⟨hv, hvd⟩ := ih hv
        refine ⟨.pair hxy hu hv, ?_⟩
        rw [height_pair hxy hu hv]
        omega
  · rintro ⟨h, hd⟩
    induction h generalizing d with
    | empty =>
      obtain ⟨d, rfl⟩ := Nat.exists_eq_add_of_lt hd
      exact mem_rowsUpTo_succ_iff.2 (.inl rfl)
    | @pair x y u v hxy hu hv ihu ihv =>
      rw [height_pair hxy hu hv] at hd
      obtain ⟨d, rfl⟩ : ∃ k, d = k + 1 := ⟨d - 1, by omega⟩
      refine mem_rowsUpTo_succ_iff.2 (.inr ⟨x, y, hxy, mem_pairs_iff.2 ?_⟩)
      exact ⟨u, ihu (by omega), v, ihv (by omega), rfl⟩

theorem nodup_pairs {rows : List Sample} (hxy : closer? x = some y) (h : rows.Nodup)
    (hrows : ∀ u ∈ rows, Balanced u) : (pairs x y rows).Nodup := by
  have hy := closer?_of_closer hxy
  refine List.nodup_flatMap.2 ⟨fun u _ ↦ h.map fun v v' heq ↦ ?_, ?_⟩
  · simpa using heq
  · refine h.imp_of_mem fun {u u'} hu hu' hne ↦ List.disjoint_left.2 fun w hw hw' ↦ ?_
    obtain ⟨v, -, rfl⟩ := List.mem_map.1 hw
    obtain ⟨v', -, heq⟩ := List.mem_map.1 hw'
    have hparts := (hrows u hu).append_close_inj (hrows u' hu') hy (List.cons.inj heq).2.symm
    exact hne hparts.1

theorem nodup_rowsUpTo (d : Nat) : (rowsUpTo d).Nodup := by
  induction d with
  | zero => exact List.nodup_nil
  | succ d ih =>
    have hrows : ∀ u ∈ rowsUpTo d, Balanced u := fun u hu ↦ (mem_rowsUpTo_iff.1 hu).1
    have hround := nodup_pairs (x := 0) (y := 1) rfl ih hrows
    have hsquare := nodup_pairs (x := 2) (y := 3) rfl ih hrows
    rw [rowsUpTo]
    refine hround.append (hsquare.append (List.nodup_singleton _) ?_) ?_
    · simp [mem_pairs_iff]
    · refine List.disjoint_left.2 fun w hw hw' ↦ ?_
      obtain ⟨u, -, v, -, rfl⟩ := mem_pairs_iff.1 hw
      simp [mem_pairs_iff] at hw'

theorem count_rowsUpTo (d : Nat) (w : Sample) :
    (rowsUpTo d).count w = if consumes [] w = true ∧ height w ≤ d then 1 else 0 := by
  rw [(nodup_rowsUpTo d).count]
  exact if_congr (mem_rowsUpTo_iff.trans (and_congr_left' consumes_iff_balanced.symm)) rfl rfl

end LangBench.Brackets
