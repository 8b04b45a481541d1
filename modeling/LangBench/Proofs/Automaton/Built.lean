import LangBench.Automaton.Basic
import LangBench.Proofs.Outcome

/-!
Automata that the builder makes: every number in them is that of a state, every symbol belongs to
the alphabet, and no symbol has two entries.
-/

namespace LangBench

/-- The targets of a state exist, its symbols belong to the alphabet, and they ascend. -/
structure State.WellFormed (size alphabetSize : Nat) (s : State) : Prop where
  target_lt : ∀ e ∈ s.transitions, ∀ t ∈ e.2, t < size
  symbol_lt : ∀ e ∈ s.transitions, e.1.toNat < alphabetSize
  ascending : s.transitions.Pairwise fun e f ↦ e.1 < f.1

namespace State

variable {size alphabetSize : Nat} {x : Symbol} {ts : List StateId}
  {es : List (Symbol × List StateId)} {e : Symbol × List StateId}

/-- What an entry has after targets have been appended it had before, or it is the one that was
extended. -/
theorem of_mem_extendEntry (h : e ∈ extendEntry x ts es) :
    e ∈ es ∨ e.1 = x ∧ ∀ t ∈ e.2, t ∈ ts ∨ ∃ f ∈ es, t ∈ f.2 := by
  induction es with
  | nil =>
    obtain rfl := List.mem_singleton.1 h
    exact .inr ⟨rfl, fun t ht ↦ .inl ht⟩
  | cons f es ih =>
    unfold extendEntry at h
    split at h
    · rcases List.mem_cons.1 h with rfl | h
      · exact .inr ⟨rfl, fun t ht ↦ .inl ht⟩
      · exact .inl h
    · split at h
      · rcases List.mem_cons.1 h with rfl | h
        · refine .inr ⟨rfl, fun t ht ↦ ?_⟩
          rcases List.mem_append.1 ht with ht | ht
          · exact .inr ⟨f, List.mem_cons_self, ht⟩
          · exact .inl ht
        · exact .inl (List.mem_cons_of_mem _ h)
      · rcases List.mem_cons.1 h with rfl | h
        · exact .inl List.mem_cons_self
        · rcases ih h with h | ⟨hx, ht⟩
          · exact .inl (List.mem_cons_of_mem _ h)
          · exact .inr ⟨hx, fun t h ↦ (ht t h).imp_right fun ⟨g, hg, htg⟩ ↦
              ⟨g, List.mem_cons_of_mem _ hg, htg⟩⟩

theorem extendEntry_ascending (h : es.Pairwise fun e f ↦ e.1 < f.1) :
    (extendEntry x ts es).Pairwise fun e f ↦ e.1 < f.1 := by
  induction es with
  | nil => simp [extendEntry]
  | cons f es ih =>
    obtain ⟨hf, hes⟩ := List.pairwise_cons.1 h
    unfold extendEntry
    split
    · next hlt =>
      refine List.pairwise_cons.2 ⟨fun e he ↦ ?_, h⟩
      rcases List.mem_cons.1 he with rfl | he
      · exact hlt
      · exact UInt32.lt_trans hlt (hf e he)
    · split
      · next heq => exact List.pairwise_cons.2 ⟨fun e he ↦ heq ▸ hf e he, hes⟩
      · next hge hne =>
        refine List.pairwise_cons.2 ⟨fun e he ↦ ?_, ih hes⟩
        rcases of_mem_extendEntry he with he | ⟨rfl, -⟩
        · exact hf e he
        · exact UInt32.lt_of_le_of_ne (UInt32.not_lt.1 hge) (Ne.symm hne)

theorem lookup_eq_none_of_lt (h : ∀ e ∈ es, x < e.1) : es.lookup x = none := by
  rw [List.lookup_eq_none_iff]
  intro e he
  simpa using UInt32.ne_of_lt (h e he)

theorem exists_entry_of_mem_targets {s : State} {t : StateId} (h : t ∈ s.targets x) :
    ∃ ts, (x, ts) ∈ s.transitions ∧ t ∈ ts := by
  unfold targets at h
  cases hts : s.transitions.lookup x with
  | none => simp [hts] at h
  | some ts =>
    obtain ⟨es, es', hes, -⟩ := List.lookup_eq_some_iff.1 hts
    exact ⟨ts, by simp [hes], by simpa [hts] using h⟩

namespace WellFormed

theorem mono {size' : Nat} {s : State} (hs : s.WellFormed size alphabetSize) (h : size ≤ size') :
    s.WellFormed size' alphabetSize where
  target_lt e he t ht := Nat.lt_of_lt_of_le (hs.target_lt e he t ht) h
  symbol_lt := hs.symbol_lt
  ascending := hs.ascending

theorem bare (terminal : Bool) : WellFormed size alphabetSize ⟨[], terminal⟩ where
  target_lt := by simp
  symbol_lt := by simp
  ascending := .nil

theorem extend {s : State} (hs : s.WellFormed size alphabetSize) (hts : ∀ t ∈ ts, t < size)
    (hx : x.toNat < alphabetSize) : (s.extend x ts).WellFormed size alphabetSize where
  target_lt e he t ht := by
    rcases of_mem_extendEntry he with he | ⟨-, h⟩
    · exact hs.target_lt e he t ht
    · rcases h t ht with ht | ⟨f, hf, htf⟩
      · exact hts t ht
      · exact hs.target_lt f hf t htf
  symbol_lt e he := by
    rcases of_mem_extendEntry he with he | ⟨rfl, -⟩
    · exact hs.symbol_lt e he
    · exact hx
  ascending := extendEntry_ascending hs.ascending

theorem lt_of_mem_targets {s : State} {t : StateId} (hs : s.WellFormed size alphabetSize)
    (ht : t ∈ s.targets x) : t < size := by
  obtain ⟨ts, hmem, ht⟩ := exists_entry_of_mem_targets ht
  exact hs.target_lt (x, ts) hmem t ht

theorem lt_of_mem_edges {s : State} (hs : s.WellFormed size alphabetSize)
    {e : Symbol × StateId} (he : e ∈ s.edges) : e.2 < size := by
  obtain ⟨⟨x, ts⟩, hmem, he⟩ := List.mem_flatMap.1 he
  obtain ⟨t, ht, rfl⟩ := List.mem_map.1 he
  exact hs.target_lt (x, ts) hmem t ht

end WellFormed

end State

namespace Automaton

variable {a b : Automaton} {q : StateId} {x : Symbol} {ts : List StateId}

/-- Every state is well formed, and the start is one of them; without states it is the number that
the first will have. -/
structure WellFormed (a : Automaton) : Prop where
  states : ∀ s ∈ a.states, s.WellFormed a.states.size a.alphabetSize
  start_lt : a.start < a.states.size ∨ a.states.size = 0 ∧ a.start = 0

/-- What the builder makes by any sequence of calls; a call that is refused makes nothing new. -/
inductive Built : Automaton → Prop
  | empty (alphabetSize : Nat) : Built (.empty alphabetSize)
  | addState {a : Automaton} (terminal : Bool) : Built a → Built (a.addState terminal).2
  | addStates {a : Automaton} (count : Nat) (terminal : Bool) :
      Built a → Built (a.addStates count terminal).2
  | setStart {a b : Automaton} {q : StateId} : Built a → a.setStart q = .ok b → Built b
  | setTerminal {a b : Automaton} {q : StateId} {terminal : Bool} :
      Built a → a.setTerminal q terminal = .ok b → Built b
  | addTransition {a b : Automaton} {q : StateId} {x : Symbol} {ts : List StateId} :
      Built a → a.addTransition q x ts = .ok b → Built b

theorem checkState_eq_ok : a.checkState q = .ok () ↔ q < a.states.size := by
  unfold checkState
  split <;> simp_all

theorem forM_checkState_eq_ok : ts.forM a.checkState = .ok () ↔ ∀ t ∈ ts, t < a.states.size := by
  rw [forM_eq_ok]
  exact forall₂_congr fun _ _ ↦ checkState_eq_ok

theorem setStart_eq_ok :
    a.setStart q = .ok b ↔ q < a.states.size ∧ b = { a with start := q } := by
  simp [setStart, check_bind_eq_ok, checkState_eq_ok, pure, Except.pure, eq_comm (a := b)]

theorem setTerminal_eq_ok {terminal : Bool} :
    a.setTerminal q terminal = .ok b ↔ q < a.states.size ∧
      b = { a with states := a.states.modify q fun s ↦ { s with terminal } } := by
  simp [setTerminal, check_bind_eq_ok, checkState_eq_ok, pure, Except.pure, eq_comm (a := b)]

theorem addTransition_eq_ok :
    a.addTransition q x ts = .ok b ↔
      q < a.states.size ∧ (∀ t ∈ ts, t < a.states.size) ∧ x.toNat < a.alphabetSize ∧
        b = { a with states := a.states.modify q fun s ↦ s.extend x ts } := by
  rw [← checkState_eq_ok, ← forM_checkState_eq_ok, addTransition]
  by_cases hx : x.toNat < a.alphabetSize
  · simp [check_bind_eq_ok, hx, pure, Except.pure, eq_comm (a := b)]
  · simp [check_bind_eq_ok, hx, throw_ne_ok]

theorem mem_modify {f : State → State} {s : State} {states : Array State}
    (h : s ∈ states.modify q f) : s ∈ states ∨ ∃ r ∈ states, s = f r := by
  obtain ⟨i, hi, rfl⟩ := Array.mem_iff_getElem.1 h
  rw [Array.getElem_modify]
  split
  · exact .inr ⟨_, Array.getElem_mem _, rfl⟩
  · exact .inl (Array.getElem_mem _)

theorem WellFormed.modify {f : State → State} (ha : a.WellFormed)
    (hf : ∀ s : State, s.WellFormed a.states.size a.alphabetSize →
      (f s).WellFormed a.states.size a.alphabetSize) :
    WellFormed { a with states := a.states.modify q f } where
  states s hs := by
    rw [Array.size_modify]
    rcases mem_modify hs with hs | ⟨r, hr, rfl⟩
    · exact ha.states s hs
    · exact hf r (ha.states r hr)
  start_lt := by simpa using ha.start_lt

theorem WellFormed.append (ha : a.WellFormed) (count : Nat) (terminal : Bool) :
    WellFormed { a with states := a.states ++ Array.replicate count ⟨[], terminal⟩ } where
  states s hs := by
    rw [Array.size_append]
    rcases Array.mem_append.1 hs with hs | hs
    · exact (ha.states s hs).mono (Nat.le_add_right _ _)
    · obtain ⟨-, rfl⟩ := Array.mem_replicate.1 hs
      exact .bare terminal
  start_lt := by
    simp only [Array.size_append, Array.size_replicate]
    rcases ha.start_lt with h | ⟨hsize, hstart⟩
    · exact .inl (Nat.lt_add_right _ h)
    · rw [hsize, hstart, Nat.zero_add]
      exact (Nat.eq_zero_or_pos count).symm.imp_right fun h ↦ ⟨h, rfl⟩

theorem Built.wellFormed (h : a.Built) : a.WellFormed := by
  induction h with
  | empty n => exact ⟨by simp [Automaton.empty], .inr ⟨rfl, rfl⟩⟩
  | addState terminal _ ih =>
    simpa [Automaton.addState, ← Array.append_singleton] using ih.append 1 terminal
  | addStates count terminal _ ih => exact ih.append count terminal
  | setStart _ h ih =>
    obtain ⟨hq, rfl⟩ := setStart_eq_ok.1 h
    exact ⟨ih.states, .inl hq⟩
  | setTerminal _ h ih =>
    obtain ⟨-, rfl⟩ := setTerminal_eq_ok.1 h
    exact ih.modify fun s hs ↦ ⟨hs.target_lt, hs.symbol_lt, hs.ascending⟩
  | addTransition _ h ih =>
    obtain ⟨-, hts, hx, rfl⟩ := addTransition_eq_ok.1 h
    exact ih.modify fun s hs ↦ hs.extend hts hx

theorem Built.foldl_addState {flags : List Bool} (h : a.Built) :
    (flags.foldl (fun a terminal ↦ (a.addState terminal).2) a).Built := by
  induction flags generalizing a with
  | nil => exact h
  | cons terminal flags ih => exact ih (h.addState terminal)

theorem Built.foldlM_addTransition {transitions : List (StateId × Symbol × List StateId)}
    (h : a.Built) (hb : transitions.foldlM
      (fun a (source, x, targets) ↦ a.addTransition source x targets) a = .ok b) : b.Built := by
  induction transitions generalizing a with
  | nil =>
    obtain rfl := Except.ok.inj hb
    exact h
  | cons t transitions ih =>
    rw [List.foldlM_cons, bind_eq_ok] at hb
    obtain ⟨c, hc, hb⟩ := hb
    exact ih (h.addTransition hc) hb

theorem built_of_ofParts {alphabetSize : Nat} {flags : List Bool}
    {transitions : List (StateId × Symbol × List StateId)} {start : Option StateId}
    (h : ofParts alphabetSize flags transitions start = .ok a) : a.Built := by
  obtain ⟨b, hb, hstart⟩ := bind_eq_ok.1 h
  have hbuilt := (Built.empty alphabetSize).foldl_addState.foldlM_addTransition hb
  cases start with
  | none =>
    obtain rfl := Except.ok.inj hstart
    exact hbuilt
  | some q => exact hbuilt.setStart hstart

end Automaton

end LangBench
