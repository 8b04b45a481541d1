/-!
Finite maps from names to values, kept in ascending order of the names.

Names are compared by code points, which is also the order of their UTF-8 bytes. Since the order is
part of the type, two dictionaries with the same bindings are equal.
-/

namespace LangBench

universe u v

/-- A finite map from names to values. -/
structure Dict (α : Type u) where
  entries : List (String × α)
  /-- Names ascend, so no name is bound twice. -/
  ascending : entries.Pairwise fun a b ↦ a.1 < b.1

theorem lookup_cons_eq_ite {κ : Type u} [BEq κ] [LawfulBEq κ] [DecidableEq κ] {α : Type v} (k : κ)
    (e : κ × α) (es : List (κ × α)) :
    (e :: es).lookup k = if k = e.1 then some e.2 else es.lookup k := by
  rw [List.lookup_cons]
  by_cases h : k = e.1
  · rw [if_pos h, beq_iff_eq.2 h]
  · rw [if_neg h, beq_eq_false_iff_ne.2 h]

namespace Dict

variable {α : Type u} {β : Type v}

/-- Bind a name in an ascending list, replacing an earlier binding of it. -/
def bind (name : String) (value : α) : List (String × α) → List (String × α)
  | [] => [(name, value)]
  | e :: es =>
    if name < e.1 then (name, value) :: e :: es
    else if e.1 < name then e :: bind name value es
    else (name, value) :: es

theorem mem_bind {name : String} {value : α} {es : List (String × α)} {e : String × α}
    (h : e ∈ bind name value es) : e.1 = name ∨ e ∈ es := by
  induction es with
  | nil => simp_all [bind]
  | cons x es ih =>
    unfold bind at h
    split at h
    · rcases List.mem_cons.1 h with rfl | h
      · exact .inl rfl
      · exact .inr h
    · split at h
      · rcases List.mem_cons.1 h with rfl | h
        · exact .inr (List.mem_cons_self)
        · exact (ih h).imp_right (List.mem_cons_of_mem _)
      · rcases List.mem_cons.1 h with rfl | h
        · exact .inl rfl
        · exact .inr (List.mem_cons_of_mem _ h)

theorem bind_ascending {name : String} {value : α} {es : List (String × α)}
    (h : es.Pairwise fun a b ↦ a.1 < b.1) :
    (bind name value es).Pairwise fun a b ↦ a.1 < b.1 := by
  induction es with
  | nil => simp [bind]
  | cons x es ih =>
    rw [List.pairwise_cons] at h
    unfold bind
    split
    · next hlt =>
      refine List.pairwise_cons.2 ⟨?_, List.pairwise_cons.2 h⟩
      intro e he
      rcases List.mem_cons.1 he with rfl | he
      · exact hlt
      · exact String.lt_trans hlt (h.1 e he)
    · next hge =>
      split
      · next hlt =>
        refine List.pairwise_cons.2 ⟨?_, ih h.2⟩
        intro e he
        rcases mem_bind he with heq | he
        · exact heq ▸ hlt
        · exact h.1 e he
      · next hle =>
        have heq : x.1 = name :=
          String.le_antisymm (String.not_lt.1 hge) (String.not_lt.1 hle)
        exact List.pairwise_cons.2 ⟨fun e he ↦ heq ▸ h.1 e he, h.2⟩

def empty : Dict α := ⟨[], .nil⟩

instance : Inhabited (Dict α) := ⟨empty⟩

instance [DecidableEq α] : DecidableEq (Dict α) := fun d e ↦
  if h : d.entries = e.entries then
    .isTrue (by cases d; cases e; cases h; rfl)
  else .isFalse (fun heq ↦ h (heq ▸ rfl))

def insert (d : Dict α) (name : String) (value : α) : Dict α :=
  ⟨bind name value d.entries, bind_ascending d.ascending⟩

def get? (d : Dict α) (name : String) : Option α := d.entries.lookup name

def contains (d : Dict α) (name : String) : Bool := (d.get? name).isSome

/-- Of two bindings of one name the later one counts. -/
def ofList (es : List (String × α)) : Dict α :=
  es.foldl (fun d e ↦ d.insert e.1 e.2) empty

/-- Add every binding of `e`, replacing those of the same names. -/
def extend (d e : Dict α) : Dict α :=
  e.entries.foldl (fun d e ↦ d.insert e.1 e.2) d

def keys (d : Dict α) : List String := d.entries.map (·.1)

/-- The bound values in ascending order of their names. -/
def values (d : Dict α) : List α := d.entries.map (·.2)

def size (d : Dict α) : Nat := d.entries.length

def erase (d : Dict α) (name : String) : Dict α :=
  ⟨d.entries.filter fun e ↦ e.1 != name, d.ascending.filter _⟩

end Dict

end LangBench
