import LangBench.Automaton.Builder
import LangBench.Proofs.Automaton.Built

/-!
Calls of the builder.

All checks of a call come before its changes, so that a call that is refused has changed nothing.
-/

namespace LangBench.Automaton

variable {a b : Automaton} {α β : Type}

/-- A result that replaces the automaton, which stays as it is if there is none. -/
def settle (a : Automaton) :
    Except AutomatonError (α × Automaton) → Except AutomatonError α × Automaton
  | .ok (v, b) => (.ok v, b)
  | .error e => (.error e, a)

namespace Builder

variable {q : StateId}

theorem exec_bind (x : Builder α) (f : α → Builder β) (a : Automaton) :
    (x >>= f).exec a =
      match x.exec a with
      | (.ok v, b) => (f v).exec b
      | (.error e, b) => (.error e, b) := by
  unfold exec
  rw [ExceptT.run_bind, StateT.run_bind]
  generalize x.run.run a = r
  obtain ⟨e | v, b⟩ := r
  · rfl
  · rfl

@[simp] theorem exec_pure (v : α) (a : Automaton) : (pure v : Builder α).exec a = (.ok v, a) := rfl

@[simp] theorem exec_throw (e : AutomatonError) (a : Automaton) :
    (throw e : Builder α).exec a = (.error e, a) := rfl

@[simp] theorem exec_modify (f : Automaton → Automaton) (a : Automaton) :
    (modify f : Builder Unit).exec a = (.ok (), f a) := rfl

@[simp] theorem exec_get (a : Automaton) : (get : Builder Automaton).exec a = (.ok a, a) := rfl

@[simp] theorem exec_liftExcept (x : Except AutomatonError α) (a : Automaton) :
    (liftExcept x : Builder α).exec a = (x, a) := by
  cases x with
  | error e => rfl
  | ok v => rfl

@[simp] theorem exec_checkState (q : StateId) (a : Automaton) :
    (checkState q).exec a = (a.checkState q, a) := by
  simp only [checkState, exec_bind, exec_get, exec_liftExcept]

@[simp] theorem exec_forM_checkState (qs : List StateId) (a : Automaton) :
    (qs.forM checkState).exec a = (qs.forM a.checkState, a) := by
  induction qs with
  | nil => rfl
  | cons q qs ih =>
    rw [List.forM_eq_forM] at ih
    rw [List.forM_eq_forM, List.forM_cons, exec_bind, exec_checkState, List.forM_eq_forM,
      List.forM_cons]
    cases a.checkState q with
    | error e => rfl
    | ok u => exact ih

@[simp] theorem exec_addState (terminal : Bool) (a : Automaton) :
    (addState terminal).exec a = (.ok (a.addState terminal).1, (a.addState terminal).2) := rfl

theorem exec_mapM_addState {ι : Type} (terminal : Bool) (l : List ι) (a : Automaton) :
    (l.mapM fun _ ↦ addState terminal).exec a =
      (.ok (a.addStates l.length terminal).1, (a.addStates l.length terminal).2) := by
  induction l generalizing a with
  | nil => simp [Automaton.addStates]
  | cons i l ih =>
    simp only [List.mapM_cons, exec_bind, exec_addState, ih, exec_pure]
    simp [Automaton.addState, Automaton.addStates, List.range'_succ, Array.replicate_succ']

/-- A check and then a change of the whole: as the function that checks and returns the change. -/
theorem exec_checked (q : StateId) (f : Automaton → Automaton) (a : Automaton) :
    (checkState q >>= fun _ ↦ modify f : Builder Unit).exec a =
      settle a ((a.checkState q >>= fun _ ↦ pure (f a)).map fun b ↦ ((), b)) := by
  rw [exec_bind, exec_checkState]
  cases a.checkState q with
  | error e => rfl
  | ok u => rfl

theorem exec_setStart (q : StateId) (a : Automaton) :
    (setStart q).exec a = settle a ((a.setStart q).map fun b ↦ ((), b)) :=
  exec_checked q _ a

theorem exec_setTerminal (q : StateId) (terminal : Bool) (a : Automaton) :
    (setTerminal q terminal).exec a =
      settle a ((a.setTerminal q terminal).map fun b ↦ ((), b)) :=
  exec_checked q _ a

theorem exec_addTransition (source : StateId) (x : Symbol) (targets : List StateId)
    (a : Automaton) : (addTransition source x targets).exec a =
      settle a ((a.addTransition source x targets).map fun b ↦ ((), b)) := by
  rw [addTransition, exec_bind, exec_checkState, Automaton.addTransition]
  cases a.checkState source with
  | error e => rfl
  | ok u =>
    simp only [exec_bind, exec_forM_checkState]
    cases targets.forM a.checkState with
    | error e => rfl
    | ok u =>
      simp only [exec_get]
      by_cases hx : x.toNat < a.alphabetSize
      · simp only [Nat.not_le.2 hx, hx]
        rfl
      · simp only [Nat.not_lt.1 hx, hx]
        rfl

/-- What returns nothing can be given an answer. -/
theorem exec_answer {x : Builder Unit} {r : Except AutomatonError Automaton}
    (h : x.exec a = settle a (r.map fun b ↦ ((), b))) (v : α) :
    (x >>= fun _ ↦ pure v : Builder α).exec a = settle a (r.map fun b ↦ (v, b)) := by
  rw [exec_bind, h]
  cases r with
  | error e => rfl
  | ok b => rfl

end Builder

/-- What a call makes of an automaton, if it is not refused. -/
def Call.result (a : Automaton) : Call → Except AutomatonError (List StateId × Automaton)
  | .addState terminal => .ok ([(a.addState terminal).1], (a.addState terminal).2)
  | .addStates count terminal => .ok (a.addStates count terminal)
  | .setStart q => (a.setStart q).map fun b ↦ ([], b)
  | .setTerminal q terminal => (a.setTerminal q terminal).map fun b ↦ ([], b)
  | .addTransition source x targets => (a.addTransition source x targets).map fun b ↦ ([], b)

theorem call_eq (a : Automaton) (c : Call) : a.call c = settle a (c.result a) := by
  unfold call Call.make
  cases c with
  | addState terminal => rfl
  | addStates count terminal =>
    simp only [Builder.addStates, Builder.exec_mapM_addState, List.length_range]
    rfl
  | setStart q => exact Builder.exec_answer (Builder.exec_setStart q a) []
  | setTerminal q terminal => exact Builder.exec_answer (Builder.exec_setTerminal q terminal a) []
  | addTransition source x targets =>
    exact Builder.exec_answer (Builder.exec_addTransition source x targets a) []

/-- A call that is refused leaves the automaton as it was. -/
theorem call_refused {c : Call} {e : AutomatonError} (h : a.call c = (.error e, b)) : b = a := by
  rw [call_eq] at h
  cases hr : c.result a with
  | error e => exact (Prod.mk.inj (hr ▸ h)).2.symm
  | ok r => simp [hr, settle] at h

example : ((empty 1).afterCalls [.addState true]).call (.addTransition 0 0 [0, 1]) =
    (.error (.unknownState 1), (empty 1).afterCalls [.addState true]) := rfl

theorem Built.result {c : Call} {qs : List StateId} (ha : a.Built)
    (h : c.result a = .ok (qs, b)) : b.Built := by
  cases c with
  | addState terminal =>
    cases h
    exact ha.addState terminal
  | addStates count terminal =>
    obtain rfl := congrArg Prod.snd (Except.ok.inj h)
    exact ha.addStates count terminal
  | setStart q =>
    obtain ⟨b, hb, heq⟩ := map_eq_ok.1 h
    cases heq
    exact ha.setStart hb
  | setTerminal q terminal =>
    obtain ⟨b, hb, heq⟩ := map_eq_ok.1 h
    cases heq
    exact ha.setTerminal hb
  | addTransition source x targets =>
    obtain ⟨b, hb, heq⟩ := map_eq_ok.1 h
    cases heq
    exact ha.addTransition hb

theorem Built.call (ha : a.Built) (c : Call) : (a.call c).2.Built := by
  rw [call_eq]
  cases hr : c.result a with
  | error e => exact ha
  | ok r => exact ha.result hr

theorem Built.afterCalls (ha : a.Built) (calls : List Call) : (a.afterCalls calls).Built := by
  induction calls generalizing a with
  | nil => exact ha
  | cons c calls ih => exact ih (ha.call c)

theorem built_afterCalls (n : Nat) (calls : List Call) : ((empty n).afterCalls calls).Built :=
  (Built.empty n).afterCalls calls

end LangBench.Automaton
