import LangBench.Proofs.Grammar.Moderate

/-!
What holds of every derivation in progress, because it holds of the start and is kept by expansion.
-/

namespace LangBench.Derivations

open Grammar

variable {g : Grammar} {maxLength : Option Nat} {P : Frame → Prop}

def WithinLength (maxLength : Option Nat) (n : Nat) : Prop := ∀ m ∈ maxLength, n ≤ m

theorem WithinLength.mono {maxLength : Option Nat} {n k : Nat} (h : WithinLength maxLength n)
    (hk : k ≤ n) : WithinLength maxLength k := fun m hm ↦ Nat.le_trans hk (h m hm)

theorem fits_iff {maxLength : Option Nat} {f : Frame} : fits maxLength f = true ↔
    f.pendingMin ≠ unproductive ∧ WithinLength maxLength (f.output.length + f.pendingMin) := by
  cases maxLength <;> simp [fits, WithinLength]

/-- A derivation without the item that comes next, which is expanded with this budget. -/
def afterNext (g : Grammar) (f : Frame) (x : Item) (budget : Nat) (pending : List (Item × Nat)) :
    Frame :=
  { f with
    pending
    pendingMin := f.pendingMin - g.minYield x
    minBudget := min f.minBudget budget }

/-- What a step makes of an enumeration that goes on: the next level is begun, the next derivation is
complete or has no budget left, or what expanding an item of it makes is put in its place. -/
inductive Moves : Derivations → Derivations → Prop
  | raise (g : Grammar) (maxLength : Option Nat) (level : Nat) :
    Moves ⟨g, maxLength, .deepening level true, []⟩
      ⟨g, maxLength, .deepening (level + 1) false, seed g maxLength (level + 1)⟩
  | finish {g : Grammar} {maxLength : Option Nat} {mode : DepthMode} {f : Frame}
    {stack : List Frame} (hpending : f.pending = []) :
    Moves ⟨g, maxLength, mode, f :: stack⟩ ⟨g, maxLength, mode, stack⟩
  | cut {g : Grammar} {maxLength : Option Nat} {mode : DepthMode} {f : Frame}
    {stack : List Frame} {x : Item} {pending : List (Item × Nat)}
    (hpending : f.pending = (x, 0) :: pending) :
    Moves ⟨g, maxLength, mode, f :: stack⟩ ⟨g, maxLength, mode.noteCut, stack⟩
  | expand {g : Grammar} {maxLength : Option Nat} {mode : DepthMode} {f : Frame}
    {stack : List Frame} {x : Item} {budget : Nat} {pending : List (Item × Nat)}
    (hpending : f.pending = (x, budget + 1) :: pending) :
    Moves ⟨g, maxLength, mode, f :: stack⟩ ⟨g, maxLength, mode,
      expand g maxLength (afterNext g f x (budget + 1) pending) budget x ++ stack⟩

section Moves

variable {d d' : Derivations} {w : Sample} {out : List Sample}

theorem moves_of_skip (h : step d = .skip d') : Moves d d' := by
  obtain ⟨g, maxLength, mode, stack⟩ := d
  cases stack with
  | nil =>
    cases mode with
    | bounded => cases h
    | deepening level cut =>
      cases cut with
      | false => cases h
      | true =>
        cases h
        exact .raise g maxLength level
  | cons f stack =>
    rcases hpending : f.pending with _ | ⟨⟨x, _ | budget⟩, pending⟩
    · cases hadmits : mode.admits f.minBudget with
      | true => simp [step, hpending, hadmits] at h
      | false =>
        simp only [step, hpending, hadmits] at h
        cases h
        exact .finish hpending
    · simp only [step, hpending] at h
      cases h
      exact .cut hpending
    · simp only [step, hpending] at h
      cases h
      exact .expand hpending

/-- What is handed out is the output of the next derivation, which is complete. -/
theorem exists_of_emit (h : step d = .emit w d') : ∃ f stack, d.stack = f :: stack ∧
    f.pending = [] ∧ w = f.output.reverse ∧ d' = { d with stack } := by
  obtain ⟨g, maxLength, mode, stack⟩ := d
  cases stack with
  | nil =>
    cases mode with
    | bounded => cases h
    | deepening level cut => cases cut <;> cases h
  | cons f stack =>
    rcases hpending : f.pending with _ | ⟨⟨x, _ | budget⟩, pending⟩
    · cases hadmits : mode.admits f.minBudget with
      | true =>
        simp only [step, hpending, hadmits] at h
        cases h
        exact ⟨f, stack, rfl, hpending, rfl, rfl⟩
      | false => simp [step, hpending, hadmits] at h
    · simp [step, hpending] at h
    · simp [step, hpending] at h

theorem moves_of_emit (h : step d = .emit w d') : Moves d d' := by
  obtain ⟨g, maxLength, mode, _⟩ := d
  obtain ⟨f, stack, rfl, hpending, -, rfl⟩ := exists_of_emit h
  exact .finish hpending

/-- What every step keeps, a run keeps. -/
theorem invariant_of_moves (I : Derivations → Prop) (hI : ∀ a b, I a → Moves a b → I b)
    (h : Steps step d out d') (hd : I d) : I d' :=
  h.invariant I (fun a b ha hb ↦ hI a b ha (moves_of_skip hb))
    (fun a _ b ha hb ↦ hI a b ha (moves_of_emit hb)) hd

end Moves

/-- A property of derivations that the start has at every level and that expansion keeps. -/
structure Kept (g : Grammar) (maxLength : Option Nat) (P : Frame → Prop) : Prop where
  seed : ∀ budget, ∀ f ∈ seed g maxLength budget, P f
  expand : ∀ f x budget pending, P f → f.pending = (x, budget + 1) :: pending →
    ∀ f' ∈ expand g maxLength (afterNext g f x (budget + 1) pending) budget x, P f'

/-- An enumeration of a grammar all of whose derivations have a property. -/
structure Holding (g : Grammar) (maxLength : Option Nat) (P : Frame → Prop) (d : Derivations) :
    Prop where
  grammar_eq : d.grammar = g
  maxLength_eq : d.maxLength = maxLength
  frames : ∀ f ∈ d.stack, P f

variable {maxDepth : Option Nat} {out : List Sample} {d d' : Derivations}

theorem Kept.holding_ofGrammar (hP : Kept g maxLength P) (maxDepth : Option Nat) :
    Holding g maxLength P (ofGrammar g maxDepth maxLength) := by
  cases maxDepth <;> exact ⟨rfl, rfl, hP.seed _⟩

/-- One step keeps the property of all derivations. -/
theorem Kept.moves (hP : Kept g maxLength P) (h : Holding g maxLength P d) (hm : Moves d d') :
    Holding g maxLength P d' := by
  obtain ⟨rfl, rfl, hframes⟩ := h
  cases hm with
  | raise g maxLength level => exact ⟨rfl, rfl, hP.seed _⟩
  | finish _ => exact ⟨rfl, rfl, (List.forall_mem_cons.1 hframes).2⟩
  | cut _ => exact ⟨rfl, rfl, (List.forall_mem_cons.1 hframes).2⟩
  | expand hpending =>
    obtain ⟨hf, hstack⟩ := List.forall_mem_cons.1 hframes
    exact ⟨rfl, rfl, List.forall_mem_append.2 ⟨hP.expand _ _ _ _ hf hpending, hstack⟩⟩

theorem Kept.holding (hP : Kept g maxLength P)
    (h : Steps step (ofGrammar g maxDepth maxLength) out d) : Holding g maxLength P d :=
  invariant_of_moves _ (fun _ _ ↦ hP.moves) h (hP.holding_ofGrammar maxDepth)

theorem Kept.of_handsOut (hP : Kept g maxLength P) {w : Sample}
    (h : HandsOut step (ofGrammar g maxDepth maxLength) w) :
    ∃ f, P f ∧ f.pending = [] ∧ w = f.output.reverse := by
  obtain ⟨out, d, hsteps, hw⟩ := handsOut_iff.1 h
  refine hsteps.forall_mem (Holding g maxLength P)
    (fun w ↦ ∃ f, P f ∧ f.pending = [] ∧ w = f.output.reverse)
    (fun a b ha hb ↦ hP.moves ha (moves_of_skip hb)) (fun a x b ha hb ↦ ?_)
    (hP.holding_ofGrammar maxDepth) w hw
  obtain ⟨f, stack, hstack, hpending, hx, -⟩ := exists_of_emit hb
  have hf : P f := ha.frames f (hstack ▸ List.mem_cons_self)
  exact ⟨⟨f, hf, hpending, hx⟩, hP.moves ha (moves_of_emit hb)⟩

theorem fits_of_mem_seed {budget : Nat} {f : Frame} (h : f ∈ seed g maxLength budget) :
    f = ⟨[], [(.nonterminal g.start, budget)], g.minYield (.nonterminal g.start), budget⟩ ∧
      fits maxLength f = true := by
  obtain ⟨hf, hfits⟩ := List.mem_filter.1 h
  exact ⟨List.mem_singleton.1 hf, hfits⟩

/-- What an expansion makes of a derivation: a terminal is put out, a nonterminal is replaced by
one of its rows. -/
theorem of_mem_expand {rest f : Frame} {x : Item} {budget : Nat}
    (h : f ∈ expand g maxLength rest budget x) : fits maxLength f = true ∧
      ((∃ t, x = .terminal t ∧ f = { rest with output := t :: rest.output }) ∨
        ∃ n, x = .nonterminal n ∧ ∃ row ∈ g.alternativesOf n, g.rowYield row ≠ unproductive ∧
          f = { rest with
            pending := row.map (fun x ↦ (x, budget)) ++ rest.pending
            pendingMin := rest.pendingMin + g.rowYield row }) := by
  cases x with
  | terminal t =>
    obtain ⟨hf, hfits⟩ := List.mem_filter.1 h
    exact ⟨hfits, .inl ⟨t, rfl, List.mem_singleton.1 hf⟩⟩
  | nonterminal n =>
    obtain ⟨hf, hfits⟩ := List.mem_filter.1 h
    obtain ⟨row, hrow, hreplaced⟩ := List.mem_filterMap.1 hf
    unfold replaced at hreplaced
    split at hreplaced
    · simp at hreplaced
    · next hne =>
      exact ⟨hfits, .inr ⟨n, rfl, row, hrow, hne, (Option.some.inj hreplaced).symm⟩⟩

/-- The start derives what a derivation in progress has put out followed by what is pending, and
the output is short enough. -/
structure FrameSound (g : Grammar) (maxLength : Option Nat) (f : Frame) : Prop where
  derives : g.Derives [.nonterminal g.start] (wordRow f.output.reverse ++ f.pending.map Prod.fst)
  length : WithinLength maxLength f.output.length

theorem length_of_fits {f : Frame} (h : fits maxLength f = true) :
    WithinLength maxLength f.output.length :=
  (fits_iff.1 h).2.mono (Nat.le_add_right _ _)

theorem kept_frameSound (g : Grammar) (maxLength : Option Nat) :
    Kept g maxLength (FrameSound g maxLength) where
  seed budget f hf := by
    obtain ⟨rfl, hfits⟩ := fits_of_mem_seed hf
    exact ⟨.refl, length_of_fits hfits⟩
  expand f x budget pending hf hpending f' hf' := by
    have hderives := hf.derives
    rw [hpending, List.map_cons] at hderives
    obtain ⟨hfits, hf'⟩ := of_mem_expand hf'
    refine ⟨?_, length_of_fits hfits⟩
    obtain ⟨t, rfl, rfl⟩ | ⟨n, rfl, row, hrow, -, rfl⟩ := hf'
    · simpa [afterNext, wordRow] using hderives
    · have happly := Derives.apply (mem_alternativesOf.1 hrow) (wordRow f.output.reverse)
        (pending.map Prod.fst)
      simpa [afterNext, Function.comp_def] using hderives.trans happly

theorem yields_of_handsOut {maxDepth : Option Nat} {w : Sample}
    (h : HandsOut step (ofGrammar g maxDepth maxLength) w) :
    g.Yields [.nonterminal g.start] w ∧ WithinLength maxLength w.length := by
  obtain ⟨f, hf, hpending, rfl⟩ := (kept_frameSound g maxLength).of_handsOut h
  have hderives := hf.derives
  rw [hpending, List.map_nil, List.append_nil] at hderives
  refine ⟨derives_wordRow_iff.1 hderives, ?_⟩
  rw [List.length_reverse]
  exact hf.length

/-- A property of rows of items that the start has and that the rows pending in a derivation
keep. -/
structure KeptRow (g : Grammar) (R : List Item → Prop) : Prop where
  start : R [.nonterminal g.start]
  terminal : ∀ t row, R (.terminal t :: row) → R row
  nonterminal : ∀ n row, R (.nonterminal n :: row) → ∀ alt ∈ g.alternativesOf n, R (alt ++ row)

theorem KeptRow.kept {R : List Item → Prop} (hR : KeptRow g R) (maxLength : Option Nat) :
    Kept g maxLength fun f ↦ R (f.pending.map Prod.fst) where
  seed budget f hf := by
    obtain ⟨rfl, -⟩ := fits_of_mem_seed hf
    exact hR.start
  expand f x budget pending hf hpending f' hf' := by
    rw [hpending, List.map_cons] at hf
    obtain ⟨-, ⟨t, rfl, rfl⟩ | ⟨n, rfl, row, hrow, -, rfl⟩⟩ := of_mem_expand hf'
    · exact hR.terminal t _ hf
    · simpa [afterNext, Function.comp_def] using hR.nonterminal n _ hf row hrow

theorem KeptRow.moderate {R : List Item → Prop} (hR : KeptRow g R)
    (hcounts : ∀ row, R row → g.Counts row) (maxDepth maxLength : Option Nat) (level : Nat) :
    (ofGrammar g maxDepth maxLength).Moderate level := by
  have hgrammar : (ofGrammar g maxDepth maxLength).grammar = g := by cases maxDepth <;> rfl
  refine ⟨by rw [hgrammar]; exact hcounts _ hR.start, fun out d hsteps _ row hrow ↦ ?_⟩
  have hhold := (hR.kept maxLength).holding hsteps
  rw [hgrammar]
  unfold rowsAdded at hrow
  split at hrow
  · next n budget pending _ _ _ hstack =>
    obtain ⟨alt, halt, rfl⟩ := List.mem_map.1 hrow
    have htop := hhold.frames _ (by rw [hstack]; exact List.mem_cons_self)
    exact hcounts _ (hR.nonterminal n _ htop alt (hhold.grammar_eq ▸ halt))
  · simp at hrow

end LangBench.Derivations
