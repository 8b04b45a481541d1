import LangBench.Automaton.Recognition
import LangBench.Proofs.Automaton.Path

/-!
The search with backtracking finds an accepting path if there is one.

A mark that has been tried is never tried again. This loses nothing: what it leads to has been tried
as well or is still on the stack, and marks only ever move forward in the word.
-/

namespace LangBench.Automaton

open Std (HashSet)

variable {a : Automaton} {word : Array Symbol} {seen : HashSet Mark} {stack : List Mark} {m : Mark}

/-- The marks that a mark leads to in one step. -/
def nextMarks (a : Automaton) (word : Array Symbol) (m : Mark) : List Mark :=
  a.states[m.1]?.elim [] fun s ↦ successors s word m.2

/-- A mark from which the rest of the word has an accepting path. -/
def Leads (a : Automaton) (word : Array Symbol) (m : Mark) : Prop :=
  m.2 ≤ word.size ∧ Nonempty (a.Path m.1 (word.toList.drop m.2))

def Accepting (a : Automaton) (word : Array Symbol) (m : Mark) : Prop :=
  m.2 = word.size ∧ a.isTerminalAt m.1 = true

/-- What has been tried is not accepting, and where it leads on has been tried or will be. -/
def Tried (a : Automaton) (word : Array Symbol) (seen : HashSet Mark) (stack : List Mark) : Prop :=
  ∀ m, seen.contains m = true → ¬ a.Accepting word m ∧
    ∀ m' ∈ a.nextMarks word m, a.Leads word m' → seen.contains m' = true ∨ m' ∈ stack

theorem nextMarks_eq {x : Symbol} (hx : word[m.2]? = some x) :
    a.nextMarks word m = (a.targetsOf m.1 x).map fun t ↦ (t, m.2 + 1) := by
  unfold nextMarks targetsOf successors
  cases a.states[m.1]? with
  | none => rfl
  | some s => simp [hx]

theorem nextMarks_eq_nil (hx : word[m.2]? = none) : a.nextMarks word m = [] := by
  unfold nextMarks successors
  cases a.states[m.1]? with
  | none => rfl
  | some s => simp [hx]

theorem leads_iff :
    a.Leads word m ↔ a.Accepting word m ∨ ∃ m' ∈ a.nextMarks word m, a.Leads word m' := by
  obtain ⟨q, i⟩ := m
  rcases Nat.lt_trichotomy i word.size with hi | rfl | hi
  · have hx : word[i]? = some word[i] := Array.getElem?_eq_getElem hi
    have hdrop : word.toList.drop i = word[i] :: word.toList.drop (i + 1) := by
      rw [List.drop_eq_getElem_cons (by simpa using hi)]
      simp
    simp only [Leads, Accepting, nextMarks_eq (m := (q, i)) hx, hdrop, Path.nonempty_cons_iff]
    constructor
    · intro hex
      obtain ⟨-, t, ht, hp⟩ := hex
      exact .inr ⟨(t, i + 1), List.mem_map.2 ⟨t, ht, rfl⟩, hi, hp⟩
    · intro hcases
      rcases hcases with ⟨heq, -⟩ | ⟨m', hm', -, hp⟩
      · exact absurd heq (Nat.ne_of_lt hi)
      · obtain ⟨t, ht, rfl⟩ := List.mem_map.1 hm'
        exact ⟨Nat.le_of_lt hi, t, ht, hp⟩
  · have hx : word[word.size]? = none := Array.getElem?_eq_none (Nat.le_refl _)
    have hdrop : word.toList.drop word.size = [] := List.drop_eq_nil_of_le (by simp)
    simp only [Leads, Accepting, nextMarks_eq_nil (m := (q, word.size)) hx, hdrop,
      Path.nonempty_nil_iff]
    simp
  · have hx : word[i]? = none := Array.getElem?_eq_none (Nat.le_of_lt hi)
    simp only [Leads, Accepting, nextMarks_eq_nil (m := (q, i)) hx]
    constructor
    · exact fun h ↦ absurd h.1 (Nat.not_le.2 hi)
    · intro hcases
      rcases hcases with ⟨heq, -⟩ | ⟨m', hm', -⟩
      · exact absurd heq (Nat.ne_of_gt hi)
      · simp at hm'

theorem snd_of_mem_nextMarks {m' : Mark} (h : m' ∈ a.nextMarks word m) : m'.2 = m.2 + 1 := by
  cases hx : word[m.2]? with
  | none => simp [nextMarks_eq_nil hx] at h
  | some x =>
    rw [nextMarks_eq hx] at h
    obtain ⟨t, -, rfl⟩ := List.mem_map.1 h
    rfl

theorem not_leads_of_size_le (h : a.states.size ≤ m.1) : ¬ a.Leads word m := by
  have hnone : a.states[m.1]? = none := Array.getElem?_eq_none h
  rw [leads_iff]
  intro hcases
  rcases hcases with ⟨-, hacc⟩ | ⟨m', hm', -⟩
  · simp [isTerminalAt, hnone] at hacc
  · simp [nextMarks, hnone] at hm'

namespace Tried

/-- A mark can be taken from the stack if it has been tried or leads nowhere. -/
theorem drop (h : a.Tried word seen (m :: stack))
    (hm : a.Leads word m → seen.contains m = true) : a.Tried word seen stack := by
  refine fun n hn ↦ ⟨(h n hn).1, fun m' hm' hl ↦ ?_⟩
  rcases (h n hn).2 m' hm' hl with hs | hs
  · exact .inl hs
  · rcases List.mem_cons.1 hs with rfl | hs
    · exact .inl (hm hl)
    · exact .inr hs

theorem insert (h : a.Tried word seen (m :: stack)) (hm : ¬ a.Accepting word m) :
    a.Tried word (seen.insert m) (a.nextMarks word m ++ stack) := by
  intro n hn
  rw [HashSet.contains_insert, Bool.or_eq_true, beq_iff_eq] at hn
  rcases hn with rfl | hn
  · exact ⟨hm, fun m' hm' _ ↦ .inr (List.mem_append_left _ hm')⟩
  · refine ⟨(h n hn).1, fun m' hm' hl ↦ ?_⟩
    rw [HashSet.contains_insert, Bool.or_eq_true, beq_iff_eq]
    rcases (h n hn).2 m' hm' hl with hs | hs
    · exact .inl (.inr hs)
    · rcases List.mem_cons.1 hs with rfl | hs
      · exact .inl (.inl rfl)
      · exact .inr (List.mem_append_right _ hs)

/-- If a mark that has been tried leads to acceptance, so does one that is still on the stack. -/
theorem exists_leads (h : a.Tried word seen stack) (hm : seen.contains m = true)
    (hl : a.Leads word m) : ∃ m' ∈ stack, a.Leads word m' := by
  -- each step of the path goes one symbol further
  induction hn : word.size - m.2 generalizing m with
  | zero =>
    rcases leads_iff.1 hl with hacc | ⟨m', hm', hl'⟩
    · exact absurd hacc (h m hm).1
    · have := snd_of_mem_nextMarks hm'
      have := hl'.1
      omega
  | succ n ih =>
    rcases leads_iff.1 hl with hacc | ⟨m', hm', hl'⟩
    · exact absurd hacc (h m hm).1
    · rcases (h m hm).2 m' hm' hl' with hs | hs
      · refine ih hs hl' ?_
        have := snd_of_mem_nextMarks hm'
        omega
      · exact ⟨m', hs, hl'⟩

end Tried

theorem search_iff (h : a.Tried word seen stack) :
    a.search word seen stack = true ↔ ∃ m ∈ stack, a.Leads word m := by
  fun_induction search a word seen stack with
  | case1 => simp
  | case2 seen q i stack hq hlt _ ih =>
    have hsome : a.states[q]? = some a.states[q] := Array.getElem?_eq_getElem hlt
    have hnext : successors a.states[q] word i = a.nextMarks word (q, i) := by
      simp [nextMarks, hsome]
    have hacc : (i = word.size && a.states[q].isTerminal) = true ↔ a.Accepting word (q, i) := by
      simp [Accepting, isTerminalAt, hsome]
    rw [hnext] at ih ⊢
    rw [Bool.or_eq_true, hacc]
    by_cases hm : a.Accepting word (q, i)
    · exact ⟨fun _ ↦ ⟨_, List.mem_cons_self, leads_iff.2 (.inl hm)⟩, fun _ ↦ .inl hm⟩
    · rw [or_iff_right hm, ih (h.insert hm), List.exists_mem_cons_iff,
        leads_iff (m := (q, i)), or_iff_right hm]
      simp only [List.mem_append, or_and_right, exists_or]
  | case3 seen q i stack hm ih =>
    by_cases hl : a.Leads word (q, i)
    · have hs : seen.contains (q, i) = true := by
        by_contra hs
        refine hm ⟨?_, hl.1, by simpa using hs⟩
        by_contra hq
        exact not_leads_of_size_le (Nat.le_of_not_lt hq) hl
      have hd := h.drop fun _ ↦ hs
      rw [ih hd, List.exists_mem_cons_iff]
      exact (or_iff_right_of_imp fun hl ↦ hd.exists_leads hs hl).symm
    · rw [ih (h.drop fun hl' ↦ absurd hl' hl), List.exists_mem_cons_iff, or_iff_right hl]

theorem WellFormed.symbol_lt_of_path (ha : a.WellFormed) {q : StateId} {w : Sample}
    (p : a.Path q w) : ∀ x ∈ w, x.toNat < a.alphabetSize := by
  induction p with
  | stop => simp
  | @step q x w i _ ih =>
    obtain ⟨s, ts, hs, hmem, -⟩ := exists_entry_of_mem_targetsOf (List.get_mem _ i)
    have hx := (ha.states s (Array.mem_of_getElem? hs)).symbol_lt (x, ts) hmem
    exact List.forall_mem_cons.2 ⟨hx, ih⟩

theorem search_start_iff (a : Automaton) (q : StateId) (w : Sample) :
    a.search w.toArray ∅ [(q, 0)] = true ↔ Nonempty (a.Path q w) := by
  rw [search_iff fun m hm ↦ by simp at hm]
  simp [Leads]

/-- The search accepts the words that have an accepting path. -/
theorem WellFormed.acceptsFrom_iff (ha : a.WellFormed) (q : StateId) (w : Sample) :
    a.acceptsFrom q w = true ↔ Nonempty (a.Path q w) := by
  rw [acceptsFrom, Bool.and_eq_true, search_start_iff, and_iff_right_iff_imp]
  intro h
  obtain ⟨p⟩ := h
  exact Sample.withinAlphabet_iff.2 (ha.symbol_lt_of_path p)

theorem WellFormed.acceptsFrom_nil (ha : a.WellFormed) (q : StateId) :
    a.acceptsFrom q [] = true ↔ a.isTerminalAt q = true := by
  rw [ha.acceptsFrom_iff, Path.nonempty_nil_iff]

theorem WellFormed.acceptsFrom_cons (ha : a.WellFormed) (q : StateId) (x : Symbol) (w : Sample) :
    a.acceptsFrom q (x :: w) = true ↔ ∃ t ∈ a.targetsOf q x, a.acceptsFrom t w = true := by
  simp only [ha.acceptsFrom_iff, Path.nonempty_cons_iff]

end LangBench.Automaton
