import LangBench.Proofs.Benchmark.Recall
import Mathlib

/-!
The languages `parity_fsm` and `toy_fsm`. What their automata know of a word that has been read is
how many ones it had, modulo 2, and how often it went on along the circle, modulo 3. The first is
deterministic. In the second each symbol leaves the choice to stay or to go on, which the next one
settles, so that only the last choice is free and a word has two paths.
-/

namespace LangBench

/-- A backend accepts the words of a kind, and with a bound on lengths it lists those up to the
bound, each a number of times that depends on the word, and no others. -/
structure Backend.Enumerates (b : Backend) (words : Sample → Prop) (times : Sample → Nat) :
    Prop where
  accepts_iff : ∀ w, b.accepts w = true ↔ words w
  listed : ∀ bound, ∃ samples, Lists Enumeration.step (b.generate (some bound)) samples ∧
    ∀ w, (w ∈ samples ↔ words w ∧ w.length ≤ bound) ∧ (w ∈ samples → samples.count w = times w)

namespace State

variable {x : Symbol} {terminal : Bool}

theorem targets_nil : (State.mk [] terminal).targets x = [] := rfl

theorem targets_cons {y : Symbol} {ts : List StateId} {es : List (Symbol × List StateId)} :
    (State.mk ((y, ts) :: es) terminal).targets x =
      if x = y then ts else (State.mk es terminal).targets x := by
  unfold targets
  rw [List.lookup_cons]
  by_cases h : x = y
  · simp [h]
  · rw [beq_false_of_ne h, if_neg h]

end State

namespace Automaton

variable {a : Automaton} {q : StateId} {words : Sample → Prop} {times : Sample → Nat}

theorem Built.enumerates [DecidablePred words] (ha : a.Built) (hstart : a.start? = some q)
    (hcard : ∀ w, Nat.card (a.Path q w) = if words w then times w else 0)
    (htimes : ∀ w, times w ≠ 0) : a.backend.Enumerates words times := by
  have haccepts (w : Sample) : a.accepts w = true ↔ words w := by
    have hpaths : Nonempty (a.Path q w) ↔ Nat.card (a.Path q w) ≠ 0 := by
      rw [Nat.card_ne_zero, and_iff_left (Path.finite a q w)]
    rw [accepts, hstart, ha.wellFormed.acceptsFrom_iff, hpaths, hcard]
    simp [htimes w]
  have hagree := ha.wellFormed.agree_start
  rw [hstart] at hagree
  refine ⟨haccepts, fun bound ↦ ?_⟩
  obtain ⟨samples, hlists, hsamples⟩ := hagree.bounded bound
  refine ⟨samples, Lists.map (f := Enumeration.walk) (fun _ ↦ rfl) hlists, fun w ↦ ?_⟩
  obtain ⟨hmem, hcount⟩ := hsamples w
  rw [haccepts] at hmem
  refine ⟨hmem, fun hw ↦ ?_⟩
  obtain ⟨hw, hle⟩ := hmem.1 hw
  rw [hcount, if_pos hle, Option.elim_some, hcard, if_pos hw]

section Parity

open Benchmark (evensAutomaton)

/-- Zeros and ones, where the ones and `n` more are an even number. -/
def EvenWith (n : Nat) (w : Sample) : Prop := (∀ x ∈ w, x = 0 ∨ x = 1) ∧ Even (w.count 1 + n)

instance (n : Nat) : DecidablePred (EvenWith n) := fun _ ↦ inferInstanceAs (Decidable (_ ∧ _))

theorem evenWith_nil (n : Nat) : EvenWith n [] ↔ Even n := by simp [EvenWith]

theorem evenWith_zero_cons (n : Nat) (w : Sample) : EvenWith n (0 :: w) ↔ EvenWith n w := by
  simp [EvenWith]

theorem evenWith_one_cons (n : Nat) (w : Sample) : EvenWith n (1 :: w) ↔ EvenWith (n + 1) w := by
  rw [EvenWith, EvenWith, List.count_cons_self, Nat.add_assoc, Nat.add_comm 1 n]
  simp

theorem isTerminalAt_evens (n : Nat) : evensAutomaton.isTerminalAt (n % 2) = true ↔ Even n := by
  rw [Nat.even_iff]
  rcases Nat.mod_two_eq_zero_or_one n with h | h <;> rw [h] <;> decide

theorem targetsOf_evens (n : Nat) (x : Symbol) : evensAutomaton.targetsOf (n % 2) x =
    if x = 0 then [n % 2] else if x = 1 then [(n + 1) % 2] else [] := by
  have hsucc : (n + 1) % 2 = 1 - n % 2 := by omega
  rw [hsucc]
  rcases Nat.mod_two_eq_zero_or_one n with h | h <;>
    simp [h, targetsOf, evensAutomaton, State.targets_cons, State.targets_nil]

/-- After `n` ones the state is the parity of `n`, and there is one way on. -/
theorem card_path_evens (n : Nat) (w : Sample) :
    Nat.card (evensAutomaton.Path (n % 2) w) = if EvenWith n w then 1 else 0 := by
  induction w generalizing n with
  | nil =>
    rw [Path.card_nil]
    exact if_congr ((isTerminalAt_evens n).trans (evenWith_nil n).symm) rfl rfl
  | cons x w ih =>
    rw [Path.card_cons, targetsOf_evens]
    by_cases hzero : x = 0
    · rw [if_pos hzero, List.map_singleton, List.sum_singleton, ih, hzero]
      exact if_congr (evenWith_zero_cons n w).symm rfl rfl
    · by_cases hone : x = 1
      · rw [if_neg hzero, if_pos hone, List.map_singleton, List.sum_singleton, ih, hone]
        exact if_congr (evenWith_one_cons n w).symm rfl rfl
      · have hnot : ¬ EvenWith n (x :: w) := fun h ↦ (h.1 x List.mem_cons_self).elim hzero hone
        rw [if_neg hzero, if_neg hone, if_neg hnot]
        rfl

theorem built_evens : evensAutomaton.Built := by
  have hparts : ofParts 2 [true, false] [(0, 0, [0]), (0, 1, [1]), (1, 0, [1]), (1, 1, [0])]
      (some 0) = .ok evensAutomaton := rfl
  exact built_of_ofParts hparts

end Parity

section Circle

/-- Three states in a circle: on its own number, a state has an edge to itself and one to the
next. -/
def circle : Automaton :=
  ⟨#[⟨[(0, [0, 1])], true⟩, ⟨[(1, [1, 2])], true⟩, ⟨[(2, [2, 0])], true⟩], 0, 3⟩

/-- Symbols below 3 that start with `n`, modulo 3, and where each is followed by itself or by the
next one around. -/
def RoundFrom (n : Nat) (w : Sample) : Prop :=
  (∀ x ∈ w.head?, x.toNat = n % 3) ∧ (∀ x ∈ w, x.toNat < 3) ∧
    w.IsChain fun x y ↦ y = x ∨ y.toNat = (x.toNat + 1) % 3

instance (n : Nat) : DecidablePred (RoundFrom n) :=
  fun _ ↦ inferInstanceAs (Decidable (_ ∧ _ ∧ _))

theorem roundFrom_nil (n : Nat) : RoundFrom n [] := ⟨by simp, by simp, .nil⟩

theorem roundFrom_cons (n : Nat) (x : Symbol) (w : Sample) :
    RoundFrom n (x :: w) ↔ x.toNat = n % 3 ∧ (RoundFrom n w ∨ RoundFrom (n + 1) w) := by
  have hlt := Nat.mod_lt n (show 0 < 3 by decide)
  simp only [RoundFrom, List.head?_cons, Option.mem_some_iff, forall_eq', List.forall_mem_cons]
  refine and_congr_right fun hx ↦ ?_
  rw [hx, and_iff_right hlt]
  cases w with
  | nil => simp
  | cons y w =>
    rw [List.isChain_cons_cons, ← UInt32.toNat_inj, hx, Nat.mod_add_mod]
    simp only [List.head?_cons, Option.mem_some_iff, forall_eq']
    tauto

theorem not_roundFrom_succ {n : Nat} {w : Sample} (hne : w ≠ []) (h : RoundFrom n w) :
    ¬ RoundFrom (n + 1) w := by
  obtain ⟨x, w, rfl⟩ := List.exists_cons_of_ne_nil hne
  intro h'
  have := h.1 x rfl
  have := h'.1 x rfl
  omega

theorem isTerminalAt_circle (n : Nat) : circle.isTerminalAt (n % 3) = true := by
  have hlt := Nat.mod_lt n (show 0 < 3 by decide)
  interval_cases n % 3 <;> rfl

theorem targetsOf_circle (n : Nat) (x : Symbol) : circle.targetsOf (n % 3) x =
    if x.toNat = n % 3 then [n % 3, (n + 1) % 3] else [] := by
  rw [Nat.add_mod]
  have hlt := Nat.mod_lt n (show 0 < 3 by decide)
  interval_cases n % 3 <;>
    simp [targetsOf, circle, State.targets_cons, State.targets_nil, ← UInt32.toNat_inj]

/-- After `n` steps to the next state the state is `n`, modulo 3. -/
theorem card_path_circle (n : Nat) (w : Sample) :
    Nat.card (circle.Path (n % 3) w) = if RoundFrom n w then if w = [] then 1 else 2 else 0 := by
  induction w generalizing n with
  | nil => rw [Path.card_nil, if_pos (isTerminalAt_circle n), if_pos (roundFrom_nil n), if_pos rfl]
  | cons x w ih =>
    rw [Path.card_cons, targetsOf_circle, if_congr (roundFrom_cons n x w) rfl rfl,
      if_neg (List.cons_ne_nil x w)]
    by_cases hx : x.toNat = n % 3
    · rw [if_pos hx, List.map_cons, List.map_singleton, List.sum_cons, List.sum_singleton, ih, ih]
      by_cases hnil : w = []
      · simp [hx, hnil, roundFrom_nil]
      · -- the symbol that comes next tells whether the state has stayed
        by_cases hstay : RoundFrom n w
        · simp [hx, hnil, hstay, not_roundFrom_succ hnil hstay]
        · simp [hx, hnil, hstay]
    · simp [hx]

theorem built_circle : circle.Built := by
  have hparts : ofParts 3 [true, true, true] [(0, 0, [0, 1]), (1, 1, [1, 2]), (2, 2, [2, 0])]
      none = .ok circle := rfl
  exact built_of_ofParts hparts

end Circle

end Automaton

namespace Language

/-- The words of `parity_fsm` are those of zeros and ones in which the number of ones is even, and
each is listed once. The words of `toy_fsm` go around its circle from 0; the empty one is listed
once and every other one twice. -/
theorem automata_list_words (overrides : Params) :
    (∃ p, Registry.builtin.prepare "parity_fsm" overrides = .ok p ∧
      p.backend.Enumerates (fun w ↦ (∀ x ∈ w, x = 0 ∨ x = 1) ∧ Even (w.count 1)) fun _ ↦ 1) ∧
    ∃ p, Registry.builtin.prepare "toy_fsm" overrides = .ok p ∧
      p.backend.Enumerates
        (fun w ↦ (∀ x ∈ w.head?, x.toNat = 0) ∧ (∀ x ∈ w, x.toNat < 3) ∧
          w.IsChain fun x y ↦ y = x ∨ y.toNat = (x.toNat + 1) % 3)
        fun w ↦ if w = [] then 1 else 2 := by
  constructor
  · obtain ⟨p, hp, hbackend⟩ : ∃ p, parityFsm.prepare overrides = .ok p ∧
        p.backend = Benchmark.evensAutomaton.backend := prepare_ofAutomaton rfl (by decide) _
    refine ⟨p, Registry.prepare_eq_ok.2 ⟨parityFsm, by cbv, hp⟩, ?_⟩
    rw [hbackend]
    exact Automaton.built_evens.enumerates rfl (Automaton.card_path_evens 0) (by simp)
  · obtain ⟨p, hp, hbackend⟩ : ∃ p, toyFsm.prepare overrides = .ok p ∧
        p.backend = Automaton.circle.backend := prepare_ofAutomaton rfl (by decide) _
    refine ⟨p, Registry.prepare_eq_ok.2 ⟨toyFsm, by cbv, hp⟩, ?_⟩
    rw [hbackend]
    exact Automaton.built_circle.enumerates rfl (Automaton.card_path_circle 0)
      (by intro w; split <;> simp)

end Language

end LangBench
