import LangBench.Proofs.Grammar.Budget
import LangBench.Proofs.Grammar.Frames

/-!
Working off a derivation in progress hands out what its trees within the budget yield.

A derivation is worked off when everything that came from it has left the stack. For a row of items
with one budget this is shown along the trees of the row: what comes after the row is given for each
of them.
-/

namespace LangBench.Derivations

open Grammar

/-- The mode at a level that may have cut branches short; without a level, that with a bound. -/
def modeAt : Option Nat → Bool → DepthMode
  | none, _ => .bounded
  | some level, cut => .deepening level cut

/-- The derivation with the least length of its pending items. -/
def frameOf (g : Grammar) (output : List Symbol) (pending : List (Item × Nat)) (minBudget : Nat) :
    Frame :=
  ⟨output, pending, g.leastSum (pending.map Prod.fst), minBudget⟩

/-- The enumeration that was started as `s`, at a level and with a stack. -/
def working (s : Derivations) (level : Option Nat) (cut : Bool) (stack : List Frame) :
    Derivations :=
  { s with mode := modeAt level cut, stack }

/-- Whenever some derivations come to the top of the stack, they are worked off and hand out some
samples; `cut` tells whether a branch is cut short. With a limit it may also be that only the first
of these samples are known to be handed out, and that the limit is passed with them. -/
def WorkedOff (s : Derivations) (limit level : Option Nat) (frames : List Frame)
    (out : List Sample) (cut : Prop) : Prop :=
  ∀ c stack before, Steps step s before (s.working level c (frames ++ stack)) →
    (∃ c', (c' = true ↔ c = true ∨ cut) ∧
      Steps step (s.working level c (frames ++ stack)) out (s.working level c' stack)) ∨
    ∃ first rest d, out = first ++ rest ∧
      Steps step (s.working level c (frames ++ stack)) first d ∧
      Passed limit (before ++ first).length

namespace WorkedOff

variable {s : Derivations} {limit level : Option Nat} {frames frames' : List Frame}
  {out out' : List Sample} {cut cut' : Prop}

theorem nil : WorkedOff s limit level [] [] False :=
  fun c stack _ _ ↦ .inl ⟨c, by simp, .zero _⟩

theorem append (h : WorkedOff s limit level frames out cut)
    (h' : WorkedOff s limit level frames' out' cut') :
    WorkedOff s limit level (frames ++ frames') (out ++ out') (cut ∨ cut') := by
  intro c stack before hbefore
  rw [List.append_assoc] at hbefore ⊢
  obtain ⟨c₁, hc₁, hfirst⟩ | ⟨first, rest, d, rfl, hfirst, hpassed⟩ := h c _ before hbefore
  · obtain ⟨c₂, hc₂, hrest⟩ | ⟨first, rest, d, rfl, hrest, hpassed⟩ :=
      h' c₁ stack _ (hbefore.trans hfirst)
    · exact .inl ⟨c₂, by rw [hc₂, hc₁, or_assoc], hfirst.trans hrest⟩
    · refine .inr ⟨out ++ first, rest, d, (List.append_assoc _ _ _).symm, hfirst.trans hrest, ?_⟩
      rwa [← List.append_assoc]
  · exact .inr ⟨first, rest ++ out', d, List.append_assoc _ _ _, hfirst, hpassed⟩

theorem congr (h : WorkedOff s limit level frames out cut) (hout : out = out') (hcut : cut ↔ cut') :
    WorkedOff s limit level frames out' cut' := by
  rwa [← hout, ← propext hcut]

theorem flatMap {α : Type} (l : List α) {F : α → List Frame} {O : α → List Sample} {K : α → Prop}
    (h : ∀ y ∈ l, WorkedOff s limit level (F y) (O y) (K y)) :
    WorkedOff s limit level (l.flatMap F) (l.flatMap O) (∃ y ∈ l, K y) := by
  induction l with
  | nil => exact nil.congr rfl (by simp)
  | cons y l ih =>
    obtain ⟨hy, hl⟩ := List.forall_mem_cons.1 h
    exact (hy.append (ih hl)).congr rfl (by simp)

theorem of_skip {f : Frame} (frames : List Frame)
    (hstep : ∀ c stack,
      step (s.working level c (f :: stack)) = .skip (s.working level c (frames ++ stack)))
    (h : WorkedOff s limit level frames out cut) : WorkedOff s limit level [f] out cut := by
  intro c stack before hbefore
  obtain ⟨c', hc', hrest⟩ | ⟨first, rest, d, hout, hrest, hpassed⟩ :=
    h c stack _ (hbefore.trans (.one_skip (hstep c stack)))
  · exact .inl ⟨c', hc', .skip (hstep c stack) hrest⟩
  · refine .inr ⟨first, rest, d, hout, .skip (hstep c stack) hrest, ?_⟩
    rwa [List.append_nil] at hpassed

/-- What is shown about derivations may use that they come to the top of the stack before the limit
is passed. -/
theorem of_reached
    (h : (∃ c stack before, Steps step s before (s.working level c (frames ++ stack)) ∧
      ¬ Passed limit before.length) → WorkedOff s limit level frames out cut) :
    WorkedOff s limit level frames out cut := by
  intro c stack before hbefore
  by_cases hpassed : Passed limit before.length
  · exact .inr ⟨[], out, _, rfl, .zero _, by rwa [List.append_nil]⟩
  · exact h ⟨c, stack, before, hbefore, hpassed⟩ c stack before hbefore

/-- With a depth bound, what the start hands out while it is worked off is all that is listed. -/
theorem lists {g : Grammar} {maxLength : Option Nat} {depth : Nat}
    (h : WorkedOff (ofGrammar g (some depth) maxLength) none none (seed g maxLength depth) out cut) :
    Lists step (ofGrammar g (some depth) maxLength) out := by
  obtain ⟨c, -, hsteps⟩ | ⟨_, _, _, _, _, hpassed⟩ := h false [] []
    (by rw [List.append_nil]; exact .zero _)
  · rw [List.append_nil] at hsteps
    exact lists_of_steps hsteps rfl
  · exact absurd hpassed (not_passed_none _)

end WorkedOff

variable {s : Derivations} {limit level : Option Nat} {h : Nat}

theorem level_modeAt (level : Option Nat) (cut : Bool) :
    (modeAt level cut).level = level.getD 0 := by
  cases level <;> rfl

theorem noteCut_modeAt (level : Option Nat) (cut : Bool) :
    (modeAt level cut).noteCut = modeAt level true := by
  cases level <;> rfl

/-- The derivations that a row makes of one, if it can. -/
def branch (s : Derivations) (output : List Symbol) (row : List Item) (budget : Nat)
    (pending : List (Item × Nat)) (minBudget : Nat) : List Frame :=
  if s.grammar.rowYield row = unproductive then []
  else [frameOf s.grammar output (row.map (fun x ↦ (x, budget)) ++ pending) minBudget].filter
    (fits s.maxLength)

theorem step_item (c : Bool) (stack : List Frame) (x : Item) (budget : Nat)
    (output : List Symbol) (pending : List (Item × Nat)) (minBudget : Nat) :
    step (s.working level c (frameOf s.grammar output ((x, budget + 1) :: pending) minBudget ::
      stack)) =
    .skip (s.working level c (expand s.grammar s.maxLength
      (frameOf s.grammar output pending (min minBudget (budget + 1))) budget x ++ stack)) := by
  have hrest : s.grammar.minYield x + s.grammar.leastSum (pending.map Prod.fst) -
      s.grammar.minYield x = s.grammar.leastSum (pending.map Prod.fst) :=
    Nat.add_sub_cancel_left _ _
  simp only [step, working, frameOf, List.map_cons, leastSum_cons, hrest]

theorem filter_replaced (output : List Symbol) (row : List Item) (budget : Nat)
    (pending : List (Item × Nat)) (minBudget : Nat) :
    (replaced s.grammar (frameOf s.grammar output pending minBudget) budget row).toList.filter
        (fits s.maxLength) =
      s.branch output row budget pending minBudget := by
  unfold replaced branch
  split
  · rfl
  · next h =>
    have hrow : s.grammar.rowYield row = s.grammar.leastSum row := by
      rw [rowYield_eq] at h ⊢
      omega
    simp [frameOf, hrow, Function.comp_def, Nat.add_comm]

theorem expand_nonterminal (n budget : Nat) (output : List Symbol) (pending : List (Item × Nat))
    (minBudget : Nat) :
    expand s.grammar s.maxLength (frameOf s.grammar output pending minBudget) budget
        (.nonterminal n) =
      (List.finRange (s.grammar.alternativesOf n).length).flatMap fun i ↦
        s.branch output ((s.grammar.alternativesOf n).get i) budget pending minBudget := by
  rw [flatMap_finRange_get (s.grammar.alternativesOf n)
    fun row ↦ s.branch output row budget pending minBudget]
  simp only [expand, ← filter_replaced]
  rw [List.filterMap_eq_flatMap_toList, List.filter_flatMap]

section Row

variable {output : List Symbol} {pending : List (Item × Nat)} {minBudget budget n : Nat}
  {row : List Item}

theorem leastSum_budgeted (g : Grammar) (row : List Item) (budget : Nat)
    (pending : List (Item × Nat)) :
    g.leastSum ((row.map (fun x ↦ (x, budget)) ++ pending).map Prod.fst) =
      g.leastSum row + g.leastSum (pending.map Prod.fst) := by
  simp [Function.comp_def]

/-- There is room for some symbols between the output and what the pending items derive. -/
def Room (s : Derivations) (output : List Symbol) (pending : List (Item × Nat)) (n : Nat) : Prop :=
  WithinLength s.maxLength (output.length + n + s.grammar.leastSum (pending.map Prod.fst))

theorem Room.mono {k : Nat} (h : s.Room output pending n) (hk : k ≤ n) : s.Room output pending k :=
  WithinLength.mono h (by omega)

theorem room_budgeted : s.Room output (row.map (fun x ↦ (x, budget)) ++ pending) n ↔
    s.Room output pending (n + s.grammar.leastSum row) := by
  rw [Room, Room, leastSum_budgeted, ← Nat.add_assoc, ← Nat.add_assoc]

theorem room_output (u : Sample) :
    s.Room (u.reverse ++ output) pending n ↔ s.Room output pending (u.length + n) := by
  rw [Room, Room, List.length_append, List.length_reverse, Nat.add_comm u.length,
    Nat.add_assoc output.length]

theorem fits_frameOf : fits s.maxLength (frameOf s.grammar output pending minBudget) = true ↔
    s.grammar.leastSum (pending.map Prod.fst) ≠ unproductive ∧ s.Room output pending 0 := by
  rw [fits_iff]
  rfl

/-- What follows the trees of a row: how the rest is worked off after each of them, and that there
is nothing after those which leave no room for the rest. -/
structure Continued (s : Derivations) (limit level : Option Nat) (output : List Symbol)
    (pending : List (Item × Nat)) (minBudget budget : Nat) {row : List Item}
    (out : s.grammar.Forest row → List Sample) (cut : s.grammar.Forest row → Prop) : Prop where
  workedOff : ∀ f : s.grammar.Forest row, f.height ≤ budget → s.Room output pending f.yield.length →
    WorkedOff s limit level [frameOf s.grammar (f.yield.reverse ++ output) pending
      (min minBudget (budget + 1 - f.height))] (out f) (cut f)
  nothing : ∀ f : s.grammar.Forest row, ¬ s.Room output pending f.yield.length →
    out f = [] ∧ ¬ cut f

/-- A branch is cut short: after some trees of the row, or among those beyond the budget. -/
def CutShort (s : Derivations) (output : List Symbol) (pending : List (Item × Nat)) (budget : Nat)
    {row : List Item} (cut : s.grammar.Forest row → Prop) : Prop :=
  (∃ f : s.grammar.Forest row, f.height ≤ budget ∧ cut f) ∨
    ∃ f : s.grammar.Forest row, budget < f.height ∧ s.Room output pending f.yield.length

/-- A derivation that has a row of items next, all with one budget, is worked off tree by tree,
whatever follows the row. -/
def RowWorkedOff (s : Derivations) (limit level : Option Nat) (budget : Nat) (row : List Item) :
    Prop :=
  ∀ (output : List Symbol) (pending : List (Item × Nat)) (minBudget : Nat)
    (out : s.grammar.Forest row → List Sample) (cut : s.grammar.Forest row → Prop),
    Continued s limit level output pending minBudget budget out cut →
    s.grammar.leastSum row + s.grammar.leastSum (pending.map Prod.fst) < unproductive →
    s.Room output pending (s.grammar.leastSum row) → minBudget ≤ budget + 1 →
    WorkedOff s limit level
      [frameOf s.grammar output (row.map (fun x ↦ (x, budget)) ++ pending) minBudget]
      ((s.grammar.forests budget row).flatMap out) (s.CutShort output pending budget cut)

theorem rowWorkedOff_nil (s : Derivations) (limit level : Option Nat) (budget : Nat) :
    RowWorkedOff s limit level budget [] := by
  intro output pending minBudget out cut hc _ hroom hmin
  have h := hc.workedOff .nil (Nat.zero_le _) hroom
  rw [Forest.height, Nat.sub_zero, Nat.min_eq_left hmin] at h
  refine h.congr (by rw [forests_nil, List.flatMap_singleton]) ?_
  constructor
  · exact fun hcut ↦ .inl ⟨.nil, Nat.zero_le _, hcut⟩
  · intro hcases
    rcases hcases with ⟨⟨⟩, -, hcut⟩ | ⟨⟨⟩, hlt, -⟩
    · exact hcut
    · simp [Forest.height] at hlt

theorem rowWorkedOff_zero (s : Derivations) (limit level : Option Nat) (x : Item)
    (row : List Item) : RowWorkedOff s limit level 0 (x :: row) := by
  intro output pending minBudget out cut _ hsum hroom _ c stack before _
  have hcut : s.CutShort output pending 0 cut := by
    obtain ⟨f, hf⟩ := exists_forest_of_leastSum_lt (Nat.lt_of_le_of_lt (Nat.le_add_right _ _) hsum)
    exact .inr ⟨f, f.height_pos, hf ▸ hroom⟩
  refine .inl ⟨true, by simp [hcut], ?_⟩
  rw [forests_zero_cons, List.flatMap_nil]
  refine .one_skip ?_
  simp [step, working, frameOf, noteCut_modeAt]

theorem room_cons {x : Symbol} :
    s.Room (x :: output) pending n ↔ s.Room output pending (n + 1) := by
  rw [Nat.add_comm]
  exact room_output [x]

section Terminal

variable {x : Symbol} {out : s.grammar.Forest (.terminal x :: row) → List Sample}
  {cut : s.grammar.Forest (.terminal x :: row) → Prop}

theorem Continued.terminal
    (hc : Continued s limit level output pending minBudget (budget + 1) out cut) :
    Continued s limit level (x :: output) pending (min minBudget (budget + 1)) (budget + 1)
      (fun f ↦ out (.terminal x f)) (fun f ↦ cut (.terminal x f)) where
  workedOff f hf hr := by
    have h := hc.workedOff (.terminal x f) (Nat.max_le.2 ⟨Nat.succ_pos _, hf⟩) (room_cons.1 hr)
    have hmin : min minBudget (budget + 1 + 1 - (Forest.terminal x f).height) =
        min (min minBudget (budget + 1)) (budget + 1 + 1 - f.height) := by
      rw [Forest.height]
      omega
    rw [hmin, Forest.yield, List.reverse_cons, List.append_assoc] at h
    exact h
  nothing f hr := hc.nothing (.terminal x f) fun h ↦ hr (room_cons.2 h)

theorem cutShort_terminal :
    s.CutShort (x :: output) pending (budget + 1) (fun f ↦ cut (.terminal x f)) ↔
      s.CutShort output pending (budget + 1) cut := by
  constructor
  · intro h
    rcases h with ⟨f, hf, hcut⟩ | ⟨f, hlt, hr⟩
    · exact .inl ⟨.terminal x f, Nat.max_le.2 ⟨Nat.succ_pos _, hf⟩, hcut⟩
    · exact .inr ⟨.terminal x f, Nat.lt_of_lt_of_le hlt (Nat.le_max_right _ _), room_cons.1 hr⟩
  · intro h
    rcases h with ⟨f, hf, hcut⟩ | ⟨f, hlt, hr⟩
    · cases f with
      | terminal _ f => exact .inl ⟨f, (Nat.max_le.1 hf).2, hcut⟩
    · cases f with
      | terminal _ f =>
        rw [Forest.height] at hlt
        exact .inr ⟨f, by omega, room_cons.2 hr⟩

theorem rowWorkedOff_terminal (ih : RowWorkedOff s limit level (budget + 1) row) :
    RowWorkedOff s limit level (budget + 1) (.terminal x :: row) := by
  intro output pending minBudget out cut hc hsum hroom hmin
  have hleast : s.grammar.leastSum (.terminal x :: row) = 1 + s.grammar.leastSum row := rfl
  have hrest := ih _ _ _ _ _ hc.terminal (by omega) (room_cons.2 (hroom.mono (by omega)))
    (by omega)
  have hfits : fits s.maxLength (frameOf s.grammar (x :: output)
      (row.map (fun x ↦ (x, budget + 1)) ++ pending) (min minBudget (budget + 1))) = true := by
    rw [fits_frameOf, leastSum_budgeted, room_budgeted, room_cons]
    exact ⟨by omega, hroom.mono (by omega)⟩
  refine .of_skip _ (fun c stack ↦ ?_) (hrest.congr ?_ cutShort_terminal)
  · rw [List.map_cons, List.cons_append, step_item, expand]
    exact congrArg (fun frames ↦ Step.skip (s.working level c (frames ++ stack)))
      (List.filter_cons_of_pos hfits)
  · rw [forests, List.flatMap_map]

end Terminal

/-- If all sums count, a row that derives something may follow any item that has been reached. -/
theorem leastSum_lt_of_reached (hg : s.grammar.WellFormed) (hmod : s.ModerateUntil limit h)
    (hlevel : level.getD 0 ≤ h) {n : Nat} {stack : List Frame} {before : List Sample} {c : Bool}
    (hreached : Steps step s before (s.working level c
      (frameOf s.grammar output ((.nonterminal n, budget + 1) :: pending) minBudget :: stack)))
    (hpassed : ¬ Passed limit before.length)
    {alt : List Item} (halt : alt ∈ s.grammar.alternativesOf n) (f : s.grammar.Forest alt)
    (hpending : s.grammar.leastSum (pending.map Prod.fst) < unproductive) :
    s.grammar.leastSum alt + s.grammar.leastSum (pending.map Prod.fst) < unproductive := by
  obtain ⟨f', -⟩ := exists_forest_of_leastSum_lt hpending
  rw [← leastSum_append]
  refine hg.leastSum_lt (f.append f') (hmod.rows _ _ hreached hpassed ?_ _ ?_)
  · rwa [working, level_modeAt]
  · exact List.mem_map_of_mem halt

theorem branch_eq_filter (hrow : s.grammar.leastSum row < unproductive) :
    s.branch output row budget pending minBudget =
      [frameOf s.grammar output (row.map (fun x ↦ (x, budget)) ++ pending) minBudget].filter
        (fits s.maxLength) := by
  rw [branch, if_neg]
  rw [rowYield_eq]
  omega

theorem branch_eq_of_fits
    (hsum : s.grammar.leastSum row + s.grammar.leastSum (pending.map Prod.fst) < unproductive)
    (hroom : s.Room output pending (s.grammar.leastSum row)) :
    s.branch output row budget pending minBudget =
      [frameOf s.grammar output (row.map (fun x ↦ (x, budget)) ++ pending) minBudget] := by
  have hfits : fits s.maxLength
      (frameOf s.grammar output (row.map (fun x ↦ (x, budget)) ++ pending) minBudget) = true := by
    rw [fits_frameOf, leastSum_budgeted, room_budgeted, Nat.zero_add]
    exact ⟨Nat.ne_of_lt hsum, hroom⟩
  rw [branch_eq_filter (Nat.lt_of_le_of_lt (Nat.le_add_right _ _) hsum)]
  exact List.filter_cons_of_pos hfits

theorem branch_eq_nil
    (h : s.grammar.leastSum row < unproductive →
      ¬ s.Room output pending (s.grammar.leastSum row)) :
    s.branch output row budget pending minBudget = [] := by
  unfold branch
  split
  · rfl
  · next hrow =>
    refine List.filter_cons_of_neg fun hfits ↦ ?_
    rw [fits_frameOf, room_budgeted, Nat.zero_add] at hfits
    rw [rowYield_eq] at hrow
    exact h (by omega) hfits.2

/-- What a row makes of a derivation is worked off tree by tree too, also if it makes nothing. -/
theorem RowWorkedOff.branch (hg : s.grammar.WellFormed)
    (hrow : RowWorkedOff s limit level budget row)
    {out : s.grammar.Forest row → List Sample} {cut : s.grammar.Forest row → Prop}
    (hc : Continued s limit level output pending minBudget budget out cut)
    (hsum : s.grammar.Forest row →
      s.grammar.leastSum row + s.grammar.leastSum (pending.map Prod.fst) < unproductive)
    (hmin : minBudget ≤ budget + 1) :
    WorkedOff s limit level (s.branch output row budget pending minBudget)
      ((s.grammar.forests budget row).flatMap out) (s.CutShort output pending budget cut) := by
  by_cases hfit : s.grammar.leastSum row < unproductive ∧
    s.Room output pending (s.grammar.leastSum row)
  · obtain ⟨f, -⟩ := exists_forest_of_leastSum_lt hfit.1
    rw [branch_eq_of_fits (hsum f) hfit.2]
    exact hrow _ _ _ _ _ hc (hsum f) hfit.2 hmin
  · have hnot (f : s.grammar.Forest row) : ¬ s.Room output pending f.yield.length := by
      intro hr
      have hlt := Nat.lt_of_le_of_lt (Nat.le_add_right _ _) (hsum f)
      exact hfit ⟨hlt, hr.mono (hg.leastSum_le f)⟩
    rw [branch_eq_nil fun hlt hr ↦ hfit ⟨hlt, hr⟩]
    refine WorkedOff.nil.congr
      (List.flatMap_eq_nil_iff.2 fun f _ ↦ (hc.nothing f (hnot f)).1).symm ?_
    rw [false_iff]
    intro hcut
    rcases hcut with ⟨f, -, hcut⟩ | ⟨f, -, hr⟩
    · exact (hc.nothing f (hnot f)).2 hcut
    · exact hnot f hr

variable {out : s.grammar.Forest (.nonterminal n :: row) → List Sample}
  {cut : s.grammar.Forest (.nonterminal n :: row) → Prop}
  {i : Fin (s.grammar.alternativesOf n).length}

theorem Continued.rest (hc : Continued s limit level output pending minBudget (budget + 1) out cut)
    (children : s.grammar.Forest ((s.grammar.alternativesOf n).get i))
    (hchildren : children.height ≤ budget) :
    Continued s limit level (children.yield.reverse ++ output) pending
      (min (min minBudget (budget + 1)) (budget + 1 - children.height)) (budget + 1)
      (fun f ↦ out (.expand n i children f)) (fun f ↦ cut (.expand n i children f)) where
  workedOff f hf hr := by
    have h := hc.workedOff (.expand n i children f)
      (Nat.max_le.2 ⟨Nat.succ_le_succ hchildren, hf⟩)
      (by rwa [Forest.yield, List.length_append, ← room_output])
    have hmin : min minBudget (budget + 1 + 1 - (Forest.expand n i children f).height) =
        min (min (min minBudget (budget + 1)) (budget + 1 - children.height))
          (budget + 1 + 1 - f.height) := by
      rw [Forest.height]
      omega
    rwa [hmin, Forest.yield, List.reverse_append, List.append_assoc] at h
  nothing f hr := hc.nothing (.expand n i children f) fun h ↦ hr <| by
    rwa [Forest.yield, List.length_append, ← room_output] at h

/-- The trees of an expansion are followed by those of the rest of the row. -/
theorem Continued.children (hg : s.grammar.WellFormed)
    (hc : Continued s limit level output pending minBudget (budget + 1) out cut)
    (hrow : RowWorkedOff s limit level (budget + 1) row)
    (hsum : s.grammar.leastSum row + s.grammar.leastSum (pending.map Prod.fst) < unproductive) :
    Continued s limit level output (row.map (fun x ↦ (x, budget + 1)) ++ pending)
      (min minBudget (budget + 1)) budget
      (fun children : s.grammar.Forest ((s.grammar.alternativesOf n).get i) ↦
        (s.grammar.forests (budget + 1) row).flatMap fun f ↦ out (.expand n i children f))
      (fun children ↦ s.CutShort (children.yield.reverse ++ output) pending (budget + 1)
        fun f ↦ cut (.expand n i children f)) where
  workedOff children hchildren hr :=
    hrow _ _ _ _ _ (hc.rest children hchildren) hsum
      ((room_output children.yield).2 (room_budgeted.1 hr)) (by omega)
  nothing children hr := by
    have hnot (f : s.grammar.Forest row) :
        ¬ s.Room (children.yield.reverse ++ output) pending f.yield.length := fun h ↦ by
      refine hr (room_budgeted.2 (((room_output children.yield).1 h).mono ?_))
      exact Nat.add_le_add_left (hg.leastSum_le f) _
    have hnothing (f : s.grammar.Forest row) := by
      refine hc.nothing (.expand n i children f) fun h ↦ hnot f ?_
      rwa [Forest.yield, List.length_append, ← room_output] at h
    refine ⟨List.flatMap_eq_nil_iff.2 fun f _ ↦ (hnothing f).1, ?_⟩
    intro hcases
    rcases hcases with ⟨f, -, hcut⟩ | ⟨f, -, hroom⟩
    · exact (hnothing f).2 hcut
    · exact hnot f hroom

theorem cutShort_nonterminal (hg : s.grammar.WellFormed)
    (hsum : s.grammar.leastSum row < unproductive) :
    s.CutShort output pending (budget + 1) cut ↔
      ∃ i ∈ List.finRange (s.grammar.alternativesOf n).length,
        s.CutShort output (row.map (fun x ↦ (x, budget + 1)) ++ pending) budget
          fun children : s.grammar.Forest ((s.grammar.alternativesOf n).get i) ↦
            s.CutShort (children.yield.reverse ++ output) pending (budget + 1)
              fun f ↦ cut (.expand n i children f) := by
  constructor
  · intro h
    rcases h with ⟨f, hf, hcut⟩ | ⟨f, hlt, hr⟩
    · cases f with
      | expand _ i children f =>
        obtain ⟨hchildren, hf⟩ := Nat.max_le.1 hf
        exact ⟨i, List.mem_finRange i,
          .inl ⟨children, Nat.le_of_succ_le_succ hchildren, .inl ⟨f, hf, hcut⟩⟩⟩
    · cases f with
      | expand _ i children f =>
        refine ⟨i, List.mem_finRange i, ?_⟩
        rw [Forest.height] at hlt
        rw [Forest.yield, List.length_append] at hr
        by_cases hchildren : children.height ≤ budget
        · exact .inl ⟨children, hchildren, .inr ⟨f, by omega, (room_output _).2 hr⟩⟩
        · refine .inr ⟨children, Nat.lt_of_not_le hchildren, room_budgeted.2 (hr.mono ?_)⟩
          exact Nat.add_le_add_left (hg.leastSum_le f) _
  · intro hex
    obtain ⟨i, -, ⟨children, hchildren, ⟨f, hf, hcut⟩ | ⟨f, hlt, hr⟩⟩ | ⟨children, hlt, hr⟩⟩ := hex
    · exact .inl ⟨.expand n i children f,
        Nat.max_le.2 ⟨Nat.succ_le_succ hchildren, hf⟩, hcut⟩
    · refine .inr ⟨.expand n i children f, Nat.lt_of_lt_of_le hlt (Nat.le_max_right _ _), ?_⟩
      rw [Forest.yield, List.length_append]
      exact (room_output _).1 hr
    · -- the rest of the row is taken as short as it can be
      obtain ⟨f, hf⟩ := exists_forest_of_leastSum_lt hsum
      refine .inr ⟨.expand n i children f,
        Nat.lt_of_lt_of_le (Nat.succ_lt_succ hlt) (Nat.le_max_left _ _), ?_⟩
      rw [Forest.yield, List.length_append, hf]
      exact room_budgeted.1 hr

theorem rowWorkedOff_nonterminal (hg : s.grammar.WellFormed) (hmod : s.ModerateUntil limit h)
    (hlevel : level.getD 0 ≤ h)
    (hchildren : ∀ i : Fin (s.grammar.alternativesOf n).length,
      RowWorkedOff s limit level budget ((s.grammar.alternativesOf n).get i))
    (hrow : RowWorkedOff s limit level (budget + 1) row) :
    RowWorkedOff s limit level (budget + 1) (.nonterminal n :: row) := by
  intro output pending minBudget out cut hc hsum hroom hmin
  rw [leastSum_cons] at hsum
  have hsum' :
      s.grammar.leastSum row + s.grammar.leastSum (pending.map Prod.fst) < unproductive := by
    omega
  have hpending : s.grammar.leastSum
      ((row.map (fun x ↦ (x, budget + 1)) ++ pending).map Prod.fst) < unproductive := by
    rwa [leastSum_budgeted]
  refine .of_reached fun ⟨c, stack, before, hreached, hpassed⟩ ↦ ?_
  have hbranch (i : Fin (s.grammar.alternativesOf n).length) :=
    (hchildren i).branch hg (hc.children (i := i) hg hrow hsum')
      (fun f ↦ leastSum_lt_of_reached hg hmod hlevel hreached hpassed (List.get_mem _ i) f
        hpending)
      (Nat.min_le_right _ _)
  have hbranches := WorkedOff.flatMap (List.finRange _) fun i _ ↦ hbranch i
  refine .of_skip _ (fun c stack ↦ ?_) (hbranches.congr ?_
    (cutShort_nonterminal hg (Nat.lt_of_le_of_lt (Nat.le_add_right _ _) hsum')).symm)
  · rw [List.map_cons, List.cons_append, step_item, expand_nonterminal]
  · simp only [forests, List.flatMap_assoc, List.flatMap_map]

theorem rowWorkedOff (hg : s.grammar.WellFormed) (hmod : s.ModerateUntil limit h)
    (hlevel : level.getD 0 ≤ h) (budget : Nat) (row : List Item) :
    RowWorkedOff s limit level budget row := by
  induction budget, row using forests.induct s.grammar with
  | case1 budget => exact rowWorkedOff_nil s limit level budget
  | case2 x row => exact rowWorkedOff_zero s limit level x row
  | case3 budget x row ih => exact rowWorkedOff_terminal ih
  | case4 budget n row ihr ihc => exact rowWorkedOff_nonterminal hg hmod hlevel ihc ihr

end Row

end LangBench.Derivations
