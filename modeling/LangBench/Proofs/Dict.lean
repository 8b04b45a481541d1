import LangBench.Dict
import Mathlib.Data.List.Forall2
import Mathlib.Data.List.Sort

/-!
Looking names up in dictionaries.

A dictionary is all that can be looked up in it: two in which every name is bound alike are equal.
-/

namespace LangBench.Dict

universe u

variable {α : Type u}

theorem lookup_bind (name other : String) (value : α) (es : List (String × α)) :
    (bind name value es).lookup other = if other = name then some value else es.lookup other := by
  induction es with
  | nil => exact lookup_cons_eq_ite other (name, value) []
  | cons e es ih =>
    unfold bind
    split
    · exact lookup_cons_eq_ite other (name, value) (e :: es)
    · next hge =>
      split
      · next hlt =>
        have hne : e.1 ≠ name := fun h ↦ String.lt_irrefl _ (h ▸ hlt)
        rw [lookup_cons_eq_ite, lookup_cons_eq_ite, ih]
        by_cases hother : other = e.1
        · rw [if_pos hother, if_pos hother, if_neg fun h ↦ hne (hother.symm.trans h)]
        · rw [if_neg hother, if_neg hother]
      · next hle =>
        have heq : e.1 = name := String.le_antisymm (String.not_lt.1 hge) (String.not_lt.1 hle)
        rw [lookup_cons_eq_ite, lookup_cons_eq_ite, heq]
        by_cases hother : other = name
        · rw [if_pos hother, if_pos hother]
        · rw [if_neg hother, if_neg hother, if_neg hother]

theorem get?_insert (d : Dict α) (name other : String) (value : α) :
    (d.insert name value).get? other = if other = name then some value else d.get? other :=
  lookup_bind name other value d.entries

/-- A name of an ascending list is bound once, so looking it up finds every binding. -/
theorem lookup_eq_some_iff {es : List (String × α)} (h : es.Pairwise fun a b ↦ a.1 < b.1)
    {name : String} {value : α} : es.lookup name = some value ↔ (name, value) ∈ es := by
  induction es with
  | nil => simp
  | cons e es ih =>
    obtain ⟨he, hes⟩ := List.pairwise_cons.1 h
    rw [lookup_cons_eq_ite, List.mem_cons, Prod.ext_iff]
    by_cases hname : name = e.1
    · have hnot : (name, value) ∉ es := fun hmem ↦
        String.lt_irrefl name (by simpa [hname] using he _ hmem)
      simp [hname, hname ▸ hnot, eq_comm]
    · simp [hname, ih hes]

theorem get?_eq_some_iff {d : Dict α} {name : String} {value : α} :
    d.get? name = some value ↔ (name, value) ∈ d.entries :=
  lookup_eq_some_iff d.ascending

theorem mem_keys_iff {d : Dict α} {name : String} :
    name ∈ d.keys ↔ ∃ value, d.get? name = some value := by
  simp [keys, get?_eq_some_iff]

/-- What is bound in the list replaces what was bound before. -/
theorem get?_foldl_insert {es : List (String × α)} (h : es.Pairwise fun a b ↦ a.1 < b.1)
    (d : Dict α) (name : String) :
    (es.foldl (fun d e ↦ d.insert e.1 e.2) d).get? name = (es.lookup name).or (d.get? name) := by
  induction es generalizing d with
  | nil => rfl
  | cons e es ih =>
    obtain ⟨he, hes⟩ := List.pairwise_cons.1 h
    rw [List.foldl_cons, ih hes, get?_insert, lookup_cons_eq_ite]
    by_cases hname : name = e.1
    · have hnone : es.lookup name = none := by
        refine Option.eq_none_iff_forall_ne_some.2 fun value hvalue ↦ ?_
        exact String.lt_irrefl name (by simpa [hname] using he _ ((lookup_eq_some_iff hes).1 hvalue))
      rw [hnone, if_pos hname, if_pos hname, Option.none_or, Option.some_or]
    · rw [if_neg hname, if_neg hname]

theorem get?_extend (d e : Dict α) (name : String) :
    (d.extend e).get? name = (e.get? name).or (d.get? name) :=
  get?_foldl_insert e.ascending d name

/-- Dictionaries in which every name is bound alike are equal. -/
theorem ext_get? {d e : Dict α} (h : ∀ name, d.get? name = e.get? name) : d = e := by
  have hentries : d.entries = e.entries := by
    have hirrefl : Std.Irrefl fun a b : String × α ↦ a.1 < b.1 := ⟨fun a ↦ String.lt_irrefl a.1⟩
    refine d.ascending.eq_of_mem_iff e.ascending fun entry ↦ ?_
    rw [← get?_eq_some_iff, ← get?_eq_some_iff, h]
  cases d
  cases e
  cases hentries
  rfl

theorem ofList_eq {es : List (String × α)} (h : es.Pairwise fun a b ↦ a.1 < b.1) :
    ofList es = ⟨es, h⟩ := by
  refine ext_get? fun name ↦ (get?_foldl_insert h empty name).trans ?_
  exact Option.or_none

theorem get?_erase (d : Dict α) (name other : String) :
    (d.erase name).get? other = if other = name then none else d.get? other := by
  refine Option.ext fun value ↦ ?_
  rw [get?_eq_some_iff, erase, List.mem_filter, ← get?_eq_some_iff]
  by_cases h : other = name <;> simp [h]

/-- What stands before a binding are the bindings of smaller names. -/
theorem mem_before_iff {es before after : List (String × α)} {e other : String × α}
    (h : es.Pairwise fun a b ↦ a.1 < b.1) (heq : es = before ++ e :: after) :
    other ∈ before ↔ other ∈ es ∧ other.1 < e.1 := by
  subst heq
  obtain ⟨-, hafter, hbefore⟩ := List.pairwise_append.1 h
  rw [List.mem_append, List.mem_cons]
  constructor
  · exact fun hmem ↦ ⟨.inl hmem, hbefore other hmem e List.mem_cons_self⟩
  · rintro ⟨hmem | rfl | hmem, hother⟩
    · exact hmem
    · exact absurd hother (String.lt_irrefl _)
    · exact absurd hother (String.lt_asymm (List.rel_of_pairwise_cons hafter hmem))

section Related

variable {β : Type u} {R : α → β → Prop} {es : List (String × α)} {fs : List (String × β)}

theorem rel_lookup (h : List.Forall₂ (fun a b ↦ a.1 = b.1 ∧ R a.2 b.2) es fs) (name : String) :
    Option.Rel R (es.lookup name) (fs.lookup name) := by
  induction h with
  | nil => exact .none
  | @cons a b _ _ hab _ ih =>
    rw [lookup_cons_eq_ite, lookup_cons_eq_ite, ← hab.1]
    by_cases hname : name = a.1
    · rw [if_pos hname, if_pos hname]
      exact .some hab.2
    · rwa [if_neg hname, if_neg hname]

theorem ascending_of_forall₂ (h : List.Forall₂ (fun a b ↦ a.1 = b.1 ∧ R a.2 b.2) es fs)
    (hes : es.Pairwise fun a b ↦ a.1 < b.1) : fs.Pairwise fun a b ↦ a.1 < b.1 := by
  have hkeys : es.map Prod.fst = fs.map Prod.fst := by
    rw [← List.forall₂_eq_eq_eq, List.forall₂_map_left_iff, List.forall₂_map_right_iff]
    exact h.imp fun _ _ hab ↦ hab.1
  rw [← List.pairwise_map (R := (· < ·)) (f := Prod.fst)] at hes ⊢
  rwa [← hkeys]

end Related

end LangBench.Dict
