import LangBench.Automaton.Walk
import LangBench.Proofs.Automaton.Search
import LangBench.Proofs.Enumeration.Steps
import Mathlib.Logic.Function.Iterate

/-!
The walk through an automaton goes layer by layer, and lists the words that the search accepts.

The queue of a walk, once all words of one length have been taken from it, holds the words that are
one symbol longer.
-/

namespace LangBench

namespace Walk

variable {a : Automaton} {maxLength : Option Nat}

/-- A word read, last symbol first, and the state it has led to. -/
abbrev Entry := List Symbol × StateId

/-- What an entry of the queue is replaced with. -/
def grow (a : Automaton) (maxLength : Option Nat) (e : Entry) : List Entry :=
  a.states[e.2]?.elim [] (children maxLength e.1)

def output (a : Automaton) (e : Entry) : List Sample :=
  if a.isTerminalAt e.2 then [e.1.reverse] else []

/-- The entries that some entries grow to in `n` symbols. -/
def layer (a : Automaton) (maxLength : Option Nat) (n : Nat) : List Entry → List Entry :=
  (List.flatMap (grow a maxLength))^[n]

def layerOutput (a : Automaton) (maxLength : Option Nat) (n : Nat) (es : List Entry) :
    List Sample :=
  (layer a maxLength n es).flatMap (output a)

theorem step_of_pop {queue queue' : Queue Entry} {e : Entry}
    (h : queue.pop? = some (e, queue')) :
    step ⟨a, maxLength, queue⟩ =
      if a.isTerminalAt e.2 then
        .emit e.1.reverse ⟨a, maxLength, queue'.pushAll (grow a maxLength e)⟩
      else .skip ⟨a, maxLength, queue'.pushAll (grow a maxLength e)⟩ := by
  obtain ⟨word, q⟩ := e
  cases hs : a.states[q]? with
  | none =>
    have hpush : queue'.pushAll [] = queue' := by cases queue'; rfl
    simp [step, Automaton.isTerminalAt, grow, h, hs, hpush]
  | some s => simp [step, Automaton.isTerminalAt, grow, h, hs]

theorem steps_pop {queue queue' : Queue Entry} {e : Entry} (h : queue.pop? = some (e, queue')) :
    Steps step ⟨a, maxLength, queue⟩ (output a e)
      ⟨a, maxLength, queue'.pushAll (grow a maxLength e)⟩ := by
  have hstep : step ⟨a, maxLength, queue⟩ = _ := step_of_pop h
  unfold output
  split
  · next hterminal => exact .one_emit (hstep.trans (if_pos hterminal))
  · next hterminal => exact .one_skip (hstep.trans (if_neg hterminal))

/-- An entry has been taken from the queue, and what it grows to put at its end. -/
structure Takes (w : Walk) (e : Entry) (w' : Walk) : Prop where
  automaton_eq : w'.automaton = w.automaton
  maxLength_eq : w'.maxLength = w.maxLength
  queue_eq : ∃ rest, w.queue.toList = e :: rest ∧
    w'.queue.toList = rest ++ grow w.automaton w.maxLength e

/-- A step takes the first entry, and hands out its word if its state is terminal. -/
theorem step_takes (w : Walk) :
    match step w with
    | .done => w.queue.toList = []
    | .skip w' => ∃ e, Takes w e w'
    | .emit x w' => ∃ e, Takes w e w' ∧ x = e.1.reverse := by
  obtain ⟨a, maxLength, queue⟩ := w
  cases hpop : queue.pop? with
  | none =>
    have hdone : step ⟨a, maxLength, queue⟩ = .done := by simp [step, hpop]
    rw [hdone]
    exact Queue.pop?_eq_none_iff.1 hpop
  | some popped =>
    obtain ⟨e, queue'⟩ := popped
    have htakes : Takes ⟨a, maxLength, queue⟩ e
        ⟨a, maxLength, queue'.pushAll (grow a maxLength e)⟩ :=
      ⟨rfl, rfl, queue'.toList, Queue.pop?_eq_some hpop, Queue.toList_pushAll _ _⟩
    rw [step_of_pop hpop]
    split
    · next h =>
      split at h <;> cases h
    · next h =>
      split at h <;> cases h
      exact ⟨e, htakes⟩
    · next h =>
      split at h <;> cases h
      exact ⟨e, htakes, rfl⟩

theorem takes_of_skip {w w' : Walk} (h : step w = .skip w') : ∃ e, Takes w e w' := by
  have htakes := step_takes w
  rwa [h] at htakes

theorem takes_of_emit {w w' : Walk} {x : Sample} (h : step w = .emit x w') :
    ∃ e, Takes w e w' ∧ x = e.1.reverse := by
  have htakes := step_takes w
  rwa [h] at htakes

theorem invariant_of_steps {w w' : Walk} {out : List Sample} {I : Walk → Prop}
    (hI : ∀ w e w', Takes w e w' → I w → I w') (h : Steps step w out w') (hw : I w) : I w' := by
  refine h.invariant I (fun w w' hw hstep ↦ ?_) (fun w x w' hw hstep ↦ ?_) hw
  · obtain ⟨e, he⟩ := takes_of_skip hstep
    exact hI w e w' he hw
  · obtain ⟨e, he, -⟩ := takes_of_emit hstep
    exact hI w e w' he hw

theorem Takes.forall_mem {w w' : Walk} {e : Entry} {P : Entry → Prop} (h : Takes w e w')
    (hP : ∀ e, P e → ∀ f ∈ grow w.automaton w.maxLength e, P f)
    (hw : ∀ f ∈ w.queue.toList, P f) : ∀ f ∈ w'.queue.toList, P f := by
  obtain ⟨rest, hqueue, hqueue'⟩ := h.queue_eq
  rw [hqueue, List.forall_mem_cons] at hw
  rw [hqueue', List.forall_mem_append]
  exact ⟨hw.2, hP e hw.1⟩

/-- A run hands out the words of entries that have whatever growing keeps. -/
theorem exists_entry_of_steps {w w' : Walk} {out : List Sample} {P : Entry → Prop}
    (hP : ∀ e, P e → ∀ f ∈ grow w.automaton w.maxLength e, P f) (h : Steps step w out w')
    (hw : ∀ e ∈ w.queue.toList, P e) : ∀ x ∈ out, ∃ e, P e ∧ x = e.1.reverse := by
  induction h with
  | zero => simp
  | skip hstep _ ih =>
    obtain ⟨e, he⟩ := takes_of_skip hstep
    refine ih ?_ (he.forall_mem hP hw)
    rwa [he.automaton_eq, he.maxLength_eq]
  | emit hstep _ ih =>
    obtain ⟨e, he, rfl⟩ := takes_of_emit hstep
    obtain ⟨rest, hqueue, -⟩ := he.queue_eq
    refine List.forall_mem_cons.2 ⟨⟨e, hw e (hqueue ▸ List.mem_cons_self), rfl⟩, ?_⟩
    refine ih ?_ (he.forall_mem hP hw)
    rwa [he.automaton_eq, he.maxLength_eq]

/-- Taking entries from the front of the queue puts what they grow to at its end. -/
theorem steps_front (a : Automaton) (maxLength : Option Nat) {es rest : List Entry}
    {queue : Queue Entry} (h : queue.toList = es ++ rest) :
    ∃ queue' : Queue Entry, queue'.toList = rest ++ es.flatMap (grow a maxLength) ∧
      Steps step ⟨a, maxLength, queue⟩ (es.flatMap (output a)) ⟨a, maxLength, queue'⟩ := by
  induction es generalizing rest queue with
  | nil => exact ⟨queue, by simpa using h, .zero _⟩
  | cons e es ih =>
    cases hp : queue.pop? with
    | none => simp [Queue.pop?_eq_none_iff.1 hp] at h
    | some p =>
      obtain ⟨e', queue'⟩ := p
      rw [Queue.pop?_eq_some hp, List.cons_append, List.cons.injEq] at h
      obtain ⟨rfl, hrest⟩ := h
      have hpush : (queue'.pushAll (grow a maxLength e')).toList =
          es ++ (rest ++ grow a maxLength e') := by
        rw [Queue.toList_pushAll, hrest, List.append_assoc]
      obtain ⟨queue'', hq, hsteps⟩ := ih hpush
      refine ⟨queue'', ?_, ?_⟩
      · rw [hq, List.flatMap_cons, List.append_assoc]
      · rw [List.flatMap_cons]
        exact (steps_pop hp).trans hsteps

/-- After the first `n` layers the queue holds the next. -/
theorem steps_layer (a : Automaton) (maxLength : Option Nat) (n : Nat) {es : List Entry}
    {queue : Queue Entry} (h : queue.toList = es) :
    ∃ queue' : Queue Entry, queue'.toList = layer a maxLength n es ∧
      Steps step ⟨a, maxLength, queue⟩
        ((List.range n).flatMap fun k ↦ layerOutput a maxLength k es) ⟨a, maxLength, queue'⟩ := by
  induction n generalizing es queue with
  | zero => exact ⟨queue, h, .zero _⟩
  | succ n ih =>
    obtain ⟨queue', hq, hfirst⟩ := steps_front a maxLength (h.trans (List.append_nil es).symm)
    obtain ⟨queue'', hq', hrest⟩ := ih hq
    refine ⟨queue'', hq', ?_⟩
    rw [List.range_succ_eq_map, List.flatMap_cons, List.flatMap_map]
    exact hfirst.trans hrest

theorem layer_succ (n : Nat) (es : List Entry) :
    layer a maxLength (n + 1) es = layer a maxLength n (es.flatMap (grow a maxLength)) := rfl

theorem layer_nil (n : Nat) : layer a maxLength n [] = [] := by
  induction n with
  | zero => rfl
  | succ n ih => exact ih

theorem layer_append (n : Nat) (es fs : List Entry) :
    layer a maxLength n (es ++ fs) = layer a maxLength n es ++ layer a maxLength n fs := by
  induction n generalizing es fs with
  | zero => rfl
  | succ n ih => simp only [layer_succ, List.flatMap_append, ih]

theorem layer_flatMap {α : Type} (n : Nat) (l : List α) (f : α → List Entry) :
    layer a maxLength n (l.flatMap f) = l.flatMap fun y ↦ layer a maxLength n (f y) := by
  induction l with
  | nil => exact layer_nil n
  | cons y l ih => rw [List.flatMap_cons, List.flatMap_cons, layer_append, ih]

theorem grow_eq_edges {word : List Symbol} {q : StateId}
    (h : mayGrow maxLength word.length = true) :
    grow a maxLength (word, q) = (a.edgesOf q).map fun (x, t) ↦ (x :: word, t) := by
  unfold grow Automaton.edgesOf
  cases a.states[q]? with
  | none => rfl
  | some s => simp [children, h]

theorem grow_eq_nil {word : List Symbol} {q : StateId} (h : mayGrow maxLength word.length = false) :
    grow a maxLength (word, q) = [] := by
  unfold grow
  cases a.states[q]? with
  | none => rfl
  | some s => simp [children, h]

theorem layer_succ_edges {word : List Symbol} {q : StateId}
    (h : mayGrow maxLength word.length = true) (n : Nat) :
    layer a maxLength (n + 1) [(word, q)] =
      (a.edgesOf q).flatMap fun (x, t) ↦ layer a maxLength n [(x :: word, t)] := by
  rw [layer_succ, List.flatMap_singleton, grow_eq_edges h, List.map_eq_flatMap, layer_flatMap]

/-- As long as words may grow, a layer hands out the words of one length. -/
theorem layerOutput_eq (n : Nat) (word : List Symbol) (q : StateId)
    (h : ∀ k < n, mayGrow maxLength (word.length + k) = true) :
    layerOutput a maxLength n [(word, q)] = (a.wordsFrom n q).map (word.reverse ++ ·) := by
  induction n generalizing word q with
  | zero =>
    have hlayer : layer a maxLength 0 [(word, q)] = [(word, q)] := rfl
    rw [layerOutput, hlayer, List.flatMap_singleton, output, Automaton.wordsFrom]
    split <;> simp
  | succ n ih =>
    have hnext (x : Symbol) (t : StateId) : layerOutput a maxLength n [(x :: word, t)] =
        ((a.wordsFrom n t).map (x :: ·)).map (word.reverse ++ ·) := by
      rw [ih (x :: word) t fun k hk ↦ ?_]
      · simp [Function.comp_def]
      · rw [List.length_cons, Nat.add_right_comm]
        exact h (k + 1) (Nat.succ_lt_succ hk)
    rw [layerOutput, layer_succ_edges (h 0 (Nat.succ_pos n)), List.flatMap_assoc,
      Automaton.wordsFrom, List.map_flatMap]
    exact List.flatMap_congr fun e _ ↦ hnext e.1 e.2

theorem length_of_mem_grow {e f : Entry} (h : f ∈ grow a maxLength e) :
    f.1.length = e.1.length + 1 := by
  obtain ⟨word, q⟩ := e
  cases hg : mayGrow maxLength word.length with
  | false => simp [grow_eq_nil hg] at h
  | true =>
    rw [grow_eq_edges hg] at h
    obtain ⟨_, -, rfl⟩ := List.mem_map.1 h
    rfl

theorem length_of_mem_layer {es : List Entry} {n k : Nat} (h : ∀ e ∈ es, e.1.length = n)
    {e : Entry} (he : e ∈ layer a maxLength k es) : e.1.length = n + k := by
  induction k generalizing es n with
  | zero => exact h e he
  | succ k ih =>
    rw [← Nat.add_assoc, Nat.add_right_comm]
    refine ih (fun f hf ↦ ?_) he
    obtain ⟨e', he', hf⟩ := List.mem_flatMap.1 hf
    rw [length_of_mem_grow hf, h e' he']

/-- No word is longer than the bound, so the layer after it is empty. -/
theorem layer_bound_succ (bound : Nat) (q : StateId) :
    layer a (some bound) (bound + 1) [([], q)] = [] := by
  rw [layer, Function.iterate_succ_apply', List.flatMap_eq_nil_iff]
  rintro ⟨word, t⟩ he
  have hlen := length_of_mem_layer (n := 0) (by simp) he
  refine grow_eq_nil ?_
  simp only [Nat.zero_add] at hlen
  simp [mayGrow, hlen]

/-- A walk with a bound lists the words up to it, shorter ones first, and ends. -/
theorem lists_walkFrom (a : Automaton) (q : StateId) (bound : Nat) :
    Lists step (a.walkFrom q (some bound))
      ((List.range (bound + 1)).flatMap (a.wordsFrom · q)) := by
  obtain ⟨queue, hq, hsteps⟩ := steps_layer a (some bound) (bound + 1)
    (Queue.toList_singleton (([], q) : Entry))
  have hout : ((List.range (bound + 1)).flatMap fun k ↦ layerOutput a (some bound) k [([], q)]) =
      (List.range (bound + 1)).flatMap (a.wordsFrom · q) := by
    refine List.flatMap_congr fun k hk ↦ ?_
    rw [layerOutput_eq k [] q fun j hj ↦ ?_]
    · simp
    · have := List.mem_range.1 hk
      simp only [List.length_nil, mayGrow, Option.all_some, decide_eq_true_eq]
      omega
  rw [← hout]
  refine lists_of_steps hsteps ?_
  rw [layer_bound_succ] at hq
  simp [step, Queue.pop?_eq_none_iff.2 hq]

/-- A walk without a bound hands out the words up to every length first, and then reads on from
words of this length. -/
theorem exists_steps_walkFrom (a : Automaton) (q : StateId) (n : Nat) :
    ∃ w, (∀ e ∈ w.queue.toList, e.1.length = n) ∧
      Steps step (a.walkFrom q none) ((List.range n).flatMap (a.wordsFrom · q)) w := by
  obtain ⟨queue, hq, hsteps⟩ := steps_layer a none n (Queue.toList_singleton (([], q) : Entry))
  have hout : ((List.range n).flatMap fun k ↦ layerOutput a none k [([], q)]) =
      (List.range n).flatMap (a.wordsFrom · q) :=
    List.flatMap_congr fun k _ ↦ (layerOutput_eq k [] q fun _ _ ↦ rfl).trans (List.map_id _)
  rw [hout] at hsteps
  refine ⟨_, fun e he ↦ ?_, hsteps⟩
  have hlen := length_of_mem_layer (n := 0) (by simp) (hq ▸ he)
  rwa [Nat.zero_add] at hlen

theorem handsOut_walkFrom {q : StateId} {w : Sample} (h : w ∈ a.wordsFrom w.length q) :
    HandsOut step (a.walkFrom q none) w := by
  obtain ⟨_, -, hsteps⟩ := exists_steps_walkFrom a q (w.length + 1)
  exact handsOut_iff.2 ⟨_, _, hsteps, List.mem_flatMap.2 ⟨w.length, by simp, h⟩⟩

end Walk

namespace Automaton

variable {a : Automaton} {q : StateId}

/-- A way to list samples and a way to recognise them belong to one language. With a bound the
samples up to it are listed, each as often as it has paths, and without one they are all handed
out. -/
structure Agree (walk : Option Nat → Walk) (accepts : Sample → Bool) (paths : Sample → Nat) :
    Prop where
  bounded : ∀ bound, ∃ samples, Lists Walk.step (walk (some bound)) samples ∧
    ∀ w, (w ∈ samples ↔ accepts w = true ∧ w.length ≤ bound) ∧
      samples.count w = if w.length ≤ bound then paths w else 0
  unbounded : ∀ w, accepts w = true → HandsOut Walk.step (walk none) w

theorem count_flatMap_wordsFrom (bound : Nat) (w : Sample) :
    ((List.range (bound + 1)).flatMap (a.wordsFrom · q)).count w =
      if w.length ≤ bound then (a.wordsFrom w.length q).count w else 0 := by
  induction bound with
  | zero =>
    rw [List.range_one, List.flatMap_singleton]
    split
    · next h => rw [Nat.le_zero.1 h]
    · next h => exact List.count_eq_zero.2 fun hw ↦ h (length_of_mem_wordsFrom hw).le
  | succ bound ih =>
    rw [List.range_succ, List.flatMap_append, List.count_append, ih, List.flatMap_singleton]
    rcases Nat.lt_trichotomy w.length (bound + 1) with h | h | h
    · have hnot : w ∉ a.wordsFrom (bound + 1) q := fun hw ↦
        absurd (length_of_mem_wordsFrom hw) (Nat.ne_of_lt h)
      rw [if_pos (Nat.le_of_lt_succ h), if_pos h.le, List.count_eq_zero.2 hnot, Nat.add_zero]
    · rw [if_neg (by omega), if_pos h.le, h, Nat.zero_add]
    · have hnot : w ∉ a.wordsFrom (bound + 1) q := fun hw ↦
        absurd (length_of_mem_wordsFrom hw) (Nat.ne_of_gt h)
      rw [if_neg (by omega), if_neg (by omega), List.count_eq_zero.2 hnot]

theorem WellFormed.mem_wordsFrom_iff (ha : a.WellFormed) (w : Sample) :
    w ∈ a.wordsFrom w.length q ↔ a.acceptsFrom q w = true := by
  rw [ha.acceptsFrom_iff, ← List.count_pos_iff, ha.count_wordsFrom, Nat.card_pos_iff]
  exact and_iff_left inferInstance

theorem WellFormed.agree_from (ha : a.WellFormed) (q : StateId) :
    Agree (a.walkFrom q) (a.acceptsFrom q) (fun w ↦ Nat.card (a.Path q w)) where
  bounded bound := by
    refine ⟨_, Walk.lists_walkFrom a q bound, fun w ↦ ?_⟩
    have hcount := count_flatMap_wordsFrom (a := a) (q := q) bound w
    refine ⟨?_, by rw [hcount, ha.count_wordsFrom]⟩
    rw [← List.count_pos_iff, hcount, ← ha.mem_wordsFrom_iff]
    split
    · next h => rw [List.count_pos_iff, and_iff_left h]
    · next h => simp [h]
  unbounded w hw := Walk.handsOut_walkFrom ((ha.mem_wordsFrom_iff w).2 hw)

theorem WellFormed.agree_start (ha : a.WellFormed) :
    Agree a.walk a.accepts (fun w ↦ a.start?.elim 0 fun q ↦ Nat.card (a.Path q w)) := by
  unfold walk accepts
  cases a.start? with
  | some q => exact ha.agree_from q
  | none =>
    refine ⟨fun bound ↦ ⟨[], lists_of_steps (.zero _) rfl, by simp⟩, by simp⟩

/-- In an automaton that has been built, the walk from a state and the search from it agree, and so
do the walk and the search from the start. -/
theorem Built.walk_agrees_with_search (h : a.Built) :
    (∀ q < a.states.size,
      Agree (a.walkFrom q) (a.acceptsFrom q) (fun w ↦ Nat.card (a.Path q w))) ∧
    Agree a.walk a.accepts (fun w ↦ a.start?.elim 0 fun q ↦ Nat.card (a.Path q w)) :=
  ⟨fun q _ ↦ h.wellFormed.agree_from q, h.wellFormed.agree_start⟩

/-- A target that is given twice makes two paths, and an entry without targets makes none. -/
theorem walk_agrees_with_search_repeated :
    ∃ a : Automaton, a.Built ∧ Nat.card (a.Path 0 [0]) = 2 ∧
      Agree (a.walkFrom 0) (a.acceptsFrom 0) (fun w ↦ Nat.card (a.Path 0 w)) := by
  have hstates : Built ⟨#[⟨[], false⟩, ⟨[], false⟩], 0, 2⟩ := .addStates 2 false (.empty 2)
  have htwice : addTransition ⟨#[⟨[], false⟩, ⟨[], false⟩], 0, 2⟩ 0 0 [1, 1] =
      .ok ⟨#[⟨[(0, [1, 1])], false⟩, ⟨[], false⟩], 0, 2⟩ := rfl
  have hnone : addTransition ⟨#[⟨[(0, [1, 1])], false⟩, ⟨[], false⟩], 0, 2⟩ 0 1 [] =
      .ok ⟨#[⟨[(0, [1, 1]), (1, [])], false⟩, ⟨[], false⟩], 0, 2⟩ := rfl
  have hbuilt := (hstates.addTransition htwice).addTransition hnone
  refine ⟨_, hbuilt, ?_, (Built.walk_agrees_with_search hbuilt).1 0 (by decide)⟩
  rw [Path.card_cons]
  simp [targetsOf, isTerminalAt, State.targets, State.isTerminal, Path.card_nil]

end Automaton

end LangBench
