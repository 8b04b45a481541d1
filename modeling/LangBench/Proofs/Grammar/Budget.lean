import LangBench.Proofs.Grammar.Forest
import Mathlib.Data.List.FinRange

/-!
The derivation trees within a budget of depth, in the order in which they are enumerated: that of
the alternatives which their leftmost derivations choose.
-/

namespace LangBench.Grammar

variable {g : Grammar} {row : List Item}

/-- The forests of a row with this budget for each of its items. Alternatives are taken in their
order, and the trees of items to the left change last. -/
def forests (g : Grammar) (budget : Nat) (row : List Item) : List (g.Forest row) :=
  match budget, row with
  | _, [] => [.nil]
  | 0, _ :: _ => []
  | budget + 1, .terminal x :: row => (g.forests (budget + 1) row).map (.terminal x)
  | budget + 1, .nonterminal n :: row =>
    (List.finRange (g.alternativesOf n).length).flatMap fun i ↦
      (g.forests budget ((g.alternativesOf n).get i)).flatMap fun children ↦
        (g.forests (budget + 1) row).map (.expand n i children)
termination_by (budget, row.length)

/-- The alternatives that the leftmost derivation of a forest chooses in turn, by their places. -/
def Forest.choices {row : List Item} : g.Forest row → List Nat
  | nil => []
  | terminal _ rest => rest.choices
  | expand _ i children rest => i.val :: (children.choices ++ rest.choices)

/-- Choices that are the same up to a place, where the first takes an earlier alternative. -/
def Earlier (l l' : List Nat) : Prop :=
  ∃ (before : List Nat) (i j : Nat), i < j ∧ before ++ [i] <+: l ∧ before ++ [j] <+: l'

namespace Earlier

variable {l l' : List Nat}

theorem lt (h : Earlier l l') : l < l' := by
  obtain ⟨before, i, j, hij, ⟨s, rfl⟩, ⟨s', rfl⟩⟩ := h
  rw [List.append_assoc, List.append_assoc]
  exact List.append_left_lt (List.cons_lt_cons_iff.2 (.inl hij))

theorem of_lt {i j : Nat} (h : i < j) (l l' : List Nat) : Earlier (i :: l) (j :: l') :=
  ⟨[], i, j, h, ⟨l, rfl⟩, ⟨l', rfl⟩⟩

theorem append_left (h : Earlier l l') (c : List Nat) : Earlier (c ++ l) (c ++ l') := by
  obtain ⟨before, i, j, hij, hl, hl'⟩ := h
  refine ⟨c ++ before, i, j, hij, ?_, ?_⟩
  · rwa [List.append_assoc, List.prefix_append_right_inj]
  · rwa [List.append_assoc, List.prefix_append_right_inj]

theorem append_right (h : Earlier l l') (c c' : List Nat) : Earlier (l ++ c) (l' ++ c') := by
  obtain ⟨before, i, j, hij, hl, hl'⟩ := h
  exact ⟨before, i, j, hij, hl.trans (List.prefix_append l c), hl'.trans (List.prefix_append l' c')⟩

end Earlier

theorem flatMap_finRange_get {α β : Type} (l : List α) (F : α → List β) :
    ((List.finRange l.length).flatMap fun i ↦ F (l.get i)) = l.flatMap F := by
  conv_rhs => rw [← List.map_get_finRange l, List.flatMap_map]

theorem forests_nil (budget : Nat) : g.forests budget [] = [.nil] := by
  rw [forests]

theorem forests_zero_cons (x : Item) (row : List Item) : g.forests 0 (x :: row) = [] := by
  rw [forests]

theorem Forest.height_pos {x : Item} (f : g.Forest (x :: row)) : 0 < f.height := by
  cases f with
  | terminal x rest => exact Nat.lt_of_lt_of_le Nat.zero_lt_one (Nat.le_max_left _ _)
  | expand n i children rest => exact Nat.lt_of_lt_of_le (Nat.succ_pos _) (Nat.le_max_left _ _)

theorem mem_forests_iff {budget : Nat} (f : g.Forest row) :
    f ∈ g.forests budget row ↔ f.height ≤ budget := by
  induction f generalizing budget with
  | nil => simp [forests_nil, Forest.height]
  | terminal x rest ih =>
    cases budget with
    | zero =>
      have := (Forest.terminal x rest).height_pos
      simp [forests_zero_cons]
      omega
    | succ budget =>
      rw [forests, List.mem_map_of_injective fun _ _ ↦ Forest.terminal.inj, ih, Forest.height]
      omega
  | expand n i children rest ihc ihr =>
    cases budget with
    | zero =>
      have := (Forest.expand n i children rest).height_pos
      simp [forests_zero_cons]
      omega
    | succ budget =>
      rw [Forest.height, Nat.max_le, Nat.succ_le_succ_iff, ← ihc, ← ihr, forests, List.mem_flatMap]
      constructor
      · intro h
        obtain ⟨j, -, hf⟩ := h
        obtain ⟨children', hc, hf⟩ := List.mem_flatMap.1 hf
        obtain ⟨rest', hr, heq⟩ := List.mem_map.1 hf
        cases heq
        exact ⟨hc, hr⟩
      · intro hex
        obtain ⟨hc, hr⟩ := hex
        exact ⟨i, List.mem_finRange i,
          List.mem_flatMap.2 ⟨children, hc, List.mem_map_of_mem hr⟩⟩

/-- Within a budget the forests of a row come in the order of the choices that they make. -/
theorem pairwise_forests (g : Grammar) (budget : Nat) (row : List Item) :
    (g.forests budget row).Pairwise fun f f' ↦ Earlier f.choices f'.choices := by
  induction budget, row using forests.induct g with
  | case1 budget =>
    rw [forests_nil]
    exact List.pairwise_singleton _ _
  | case2 x row =>
    rw [forests_zero_cons]
    exact .nil
  | case3 budget x row ih =>
    rw [forests, List.pairwise_map]
    exact ih
  | case4 budget n row ihr ihc =>
    rw [forests, List.pairwise_flatMap]
    constructor
    · intro i _
      rw [List.pairwise_flatMap]
      constructor
      · intro children _
        rw [List.pairwise_map]
        exact ihr.imp fun h ↦ h.append_left (i.val :: children.choices)
      · apply (ihc i).imp
        intro children children' h f hf f' hf'
        obtain ⟨rest, -, rfl⟩ := List.mem_map.1 hf
        obtain ⟨rest', -, rfl⟩ := List.mem_map.1 hf'
        exact (h.append_right rest.choices rest'.choices).append_left [i.val]
    · apply (List.pairwise_lt_finRange _).imp
      intro i j hij f hf f' hf'
      obtain ⟨children, -, hf⟩ := List.mem_flatMap.1 hf
      obtain ⟨children', -, hf'⟩ := List.mem_flatMap.1 hf'
      obtain ⟨rest, -, rfl⟩ := List.mem_map.1 hf
      obtain ⟨rest', -, rfl⟩ := List.mem_map.1 hf'
      exact .of_lt hij _ _

theorem nodup_forests (g : Grammar) (budget : Nat) (row : List Item) :
    (g.forests budget row).Nodup := by
  apply (g.pairwise_forests budget row).imp
  rintro f _ h rfl
  exact List.lt_irrefl _ h.lt

/-- To show something of all rows of items with budgets, it is enough to go by what expanding the
first item leads to. -/
theorem pending_induction {P : List (Item × Nat) → Prop} (nil : P [])
    (cut : ∀ x pending, P ((x, 0) :: pending))
    (terminal : ∀ x budget pending, P pending → P ((.terminal x, budget + 1) :: pending))
    (nonterminal : ∀ n budget pending,
      (∀ alt ∈ g.alternativesOf n, P (alt.map (·, budget) ++ pending)) →
        P ((.nonterminal n, budget + 1) :: pending))
    (pending : List (Item × Nat)) : P pending := by
  have hrow (budget : Nat) (row : List Item) (rest : List (Item × Nat)) (hrest : P rest) :
      P (row.map (·, budget) ++ rest) := by
    induction budget, row using forests.induct g generalizing rest with
    | case1 budget => exact hrest
    | case2 x row => exact cut x _
    | case3 budget x row ih => exact terminal x budget _ (ih rest hrest)
    | case4 budget n row ihr ihc =>
      refine nonterminal n budget _ fun alt halt ↦ ?_
      obtain ⟨i, rfl⟩ := List.get_of_mem halt
      exact ihc i _ (ihr rest hrest)
  induction pending with
  | nil => exact nil
  | cons p pending ih => exact hrow p.2 [p.1] pending ih

end LangBench.Grammar
