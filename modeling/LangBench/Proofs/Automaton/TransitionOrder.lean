import LangBench.Proofs.Automaton.Extension
import LangBench.Proofs.Automaton.Layers

/-!
Adding transitions in another order, or some of them repeatedly.

The order decides on that of the targets of a symbol, and on nothing else. So the words and the
number of their paths stay the same, and where no two calls are about one state and symbol even the
automaton does. A repeated call makes more paths, but of the same words.
-/

namespace LangBench

/-- The arguments of a call that adds transitions. -/
structure Transition where
  source : StateId
  symbol : Symbol
  targets : List StateId
  deriving DecidableEq

/-- Two calls are not about one state and symbol. -/
def Transition.Apart (t u : Transition) : Prop := ¬ (t.source = u.source ∧ t.symbol = u.symbol)

instance (t u : Transition) : Decidable (t.Apart u) :=
  inferInstanceAs (Decidable (¬ (t.source = u.source ∧ t.symbol = u.symbol)))

instance : Std.Symm Transition.Apart := ⟨fun _ _ h heq ↦ h ⟨heq.1.symm, heq.2.symm⟩⟩

namespace State

variable {s : State} {x y : Symbol} {ts us : List StateId} {es : List (Symbol × List StateId)}

/-- Append the targets of several transitions, whatever their sources. -/
def extendAll (s : State) (ts : List Transition) : State :=
  ts.foldl (fun s t ↦ s.extend t.symbol t.targets) s

theorem targets_extendAll (h : s.transitions.Pairwise fun e f ↦ e.1 < f.1) (ts : List Transition)
    (y : Symbol) : (s.extendAll ts).targets y =
      s.targets y ++ (ts.filter (·.symbol = y)).flatMap (·.targets) := by
  induction ts generalizing s with
  | nil => exact (List.append_nil _).symm
  | cons t ts ih =>
    refine (ih (s := s.extend t.symbol t.targets) (extendEntry_ascending h)).trans ?_
    rw [targets_extend h]
    by_cases hy : t.symbol = y
    · subst hy
      simp
    · simp [hy, Ne.symm hy]

theorem isTerminal_extendAll_of_ne_nil (h : s.transitions ≠ []) (ts : List Transition) :
    (s.extendAll ts).isTerminal = s.terminal := by
  induction ts generalizing s with
  | nil => exact isTerminal_eq_terminal (.inr h)
  | cons t ts ih => exact ih (s := s.extend t.symbol t.targets) (extendEntry_ne_nil _ _ _)

/-- With the first of the transitions a state is no longer terminal for want of an entry. -/
theorem isTerminal_extendAll (s : State) (ts : List Transition) :
    (s.extendAll ts).isTerminal = if ts = [] then s.isTerminal else s.terminal := by
  cases ts with
  | nil => rfl
  | cons t ts =>
    exact isTerminal_extendAll_of_ne_nil (s := s.extend t.symbol t.targets)
      (extendEntry_ne_nil _ _ _) ts

theorem extendEntry_comm_of_lt (h : x < y) (es : List (Symbol × List StateId)) :
    extendEntry x ts (extendEntry y us es) = extendEntry y us (extendEntry x ts es) := by
  have hge := UInt32.lt_asymm h
  have hne := (UInt32.ne_of_lt h).symm
  induction es with
  | nil => simp [extendEntry, h, hge, hne]
  | cons e es ih =>
    by_cases hx : x < e.1
    · -- the new entry for `x` comes first, whatever becomes of `y`
      simp only [extendEntry, hx, hge, hne, if_true, if_false]
      split
      · simp [extendEntry, h]
      · split
        · simp [extendEntry, h]
        · simp [extendEntry, hx]
    · by_cases heq : x = e.1
      · subst heq
        simp [extendEntry, hge, hne]
      · have hlt : e.1 < y := UInt32.lt_of_le_of_lt (UInt32.not_lt.1 hx) h
        simp [extendEntry, hx, heq, UInt32.lt_asymm hlt, (UInt32.ne_of_lt hlt).symm, ih]

theorem extend_comm (h : x ≠ y) (s : State) :
    (s.extend x ts).extend y us = (s.extend y us).extend x ts := by
  rcases UInt32.lt_or_lt_of_ne h with hlt | hlt
  · exact congrArg (State.mk · s.terminal) (extendEntry_comm_of_lt hlt s.transitions).symm
  · exact congrArg (State.mk · s.terminal) (extendEntry_comm_of_lt hlt s.transitions)

end State

namespace Automaton

variable {a b c : Automaton} {q : StateId} {x : Symbol} {w : Sample} {t : Transition}
  {ts us : List Transition}

/-- Add transitions by one call after the other, as long as none is refused. -/
def addTransitions (a : Automaton) (ts : List Transition) : Except AutomatonError Automaton :=
  ts.foldlM (fun a t ↦ a.addTransition t.source t.symbol t.targets) a

def withTransition (a : Automaton) (t : Transition) : Automaton :=
  { a with states := a.states.modify t.source fun s ↦ s.extend t.symbol t.targets }

/-- The states of a transition exist, and its symbol belongs to the alphabet. -/
structure Admits (a : Automaton) (t : Transition) : Prop where
  source_lt : t.source < a.states.size
  target_lt : ∀ q ∈ t.targets, q < a.states.size
  symbol_lt : t.symbol.toNat < a.alphabetSize

theorem addTransition_eq_ok_iff : a.addTransition t.source t.symbol t.targets = .ok b ↔
    a.Admits t ∧ b = a.withTransition t := by
  rw [addTransition_eq_ok]
  exact ⟨fun ⟨hsource, htargets, hsymbol, hb⟩ ↦ ⟨⟨hsource, htargets, hsymbol⟩, hb⟩,
    fun ⟨h, hb⟩ ↦ ⟨h.source_lt, h.target_lt, h.symbol_lt, hb⟩⟩

theorem admits_withTransition (u : Transition) : (a.withTransition t).Admits u ↔ a.Admits u := by
  have hsize : (a.withTransition t).states.size = a.states.size := Array.size_modify
  constructor
  · exact fun h ↦ ⟨hsize ▸ h.source_lt, hsize ▸ h.target_lt, h.symbol_lt⟩
  · exact fun h ↦ ⟨hsize.symm ▸ h.source_lt, hsize.symm ▸ h.target_lt, h.symbol_lt⟩

/-- Whether a call is refused does not depend on the calls before it. -/
theorem addTransitions_eq_ok :
    a.addTransitions ts = .ok b ↔ (∀ t ∈ ts, a.Admits t) ∧ b = ts.foldl withTransition a := by
  unfold addTransitions
  induction ts generalizing a with
  | nil => simp [pure, Except.pure, eq_comm]
  | cons t ts ih =>
    simp only [List.foldlM_cons, bind_eq_ok, addTransition_eq_ok_iff, List.forall_mem_cons,
      List.foldl_cons]
    constructor
    · rintro ⟨_, ⟨ht, rfl⟩, hb⟩
      rw [ih] at hb
      exact ⟨⟨ht, fun u hu ↦ (admits_withTransition u).1 (hb.1 u hu)⟩, hb.2⟩
    · rintro ⟨⟨ht, hts⟩, hb⟩
      exact ⟨_, ⟨ht, rfl⟩, ih.2 ⟨fun u hu ↦ (admits_withTransition u).2 (hts u hu), hb⟩⟩

theorem Built.addTransitions (h : a.Built) (hb : a.addTransitions ts = .ok b) : b.Built := by
  induction ts generalizing a with
  | nil => exact Except.ok.inj hb ▸ h
  | cons t ts ih =>
    obtain ⟨c, hc, hb⟩ := bind_eq_ok.1 hb
    exact ih (h.addTransition hc) hb

theorem getElem?_addTransitions (hb : a.addTransitions ts = .ok b) (q : StateId) :
    b.states[q]? = a.states[q]?.map (·.extendAll (ts.filter (·.source = q))) := by
  obtain ⟨-, rfl⟩ := addTransitions_eq_ok.1 hb
  clear hb
  induction ts generalizing a with
  | nil => simp [State.extendAll]
  | cons t ts ih =>
    rw [List.foldl_cons, ih, withTransition, Array.getElem?_modify]
    by_cases hq : t.source = q
    · simp [hq, State.extendAll, Function.comp_def]
    · simp [hq]

theorem start?_addTransitions (hb : a.addTransitions ts = .ok b) : b.start? = a.start? := by
  obtain ⟨-, rfl⟩ := addTransitions_eq_ok.1 hb
  clear hb
  induction ts generalizing a with
  | nil => rfl
  | cons t ts ih =>
    rw [List.foldl_cons, ih]
    simp [start?, withTransition]

theorem isTerminalAt_addTransitions (hb : a.addTransitions ts = .ok b) (q : StateId) :
    b.isTerminalAt q = a.states[q]?.any fun s ↦
      if ts.filter (·.source = q) = [] then s.isTerminal else s.terminal := by
  rw [isTerminalAt, getElem?_addTransitions hb]
  cases a.states[q]? with
  | none => rfl
  | some s => exact State.isTerminal_extendAll s _

theorem WellFormed.targetsOf_addTransitions (ha : a.WellFormed)
    (hb : a.addTransitions ts = .ok b) (q : StateId) (x : Symbol) :
    b.targetsOf q x = a.states[q]?.elim [] fun s ↦ s.targets x ++
      ((ts.filter (·.source = q)).filter (·.symbol = x)).flatMap (·.targets) := by
  rw [targetsOf, getElem?_addTransitions hb]
  cases hs : a.states[q]? with
  | none => rfl
  | some s =>
    exact State.targets_extendAll (ha.states s (Array.mem_of_getElem? hs)).ascending _ x

/-- Calls that are not about one state and symbol make the same automaton in any order. -/
theorem withTransition_comm {u : Transition} (h : t.Apart u) (a : Automaton) :
    (a.withTransition t).withTransition u = (a.withTransition u).withTransition t := by
  have hstates : (a.withTransition t |>.withTransition u).states =
      (a.withTransition u |>.withTransition t).states := by
    refine Array.ext_getElem? fun q ↦ ?_
    simp only [withTransition, Array.getElem?_modify]
    by_cases ht : t.source = q
    · by_cases hu : u.source = q
      · have hsymbol : t.symbol ≠ u.symbol := fun hx ↦ h ⟨ht.trans hu.symm, hx⟩
        simp [ht, hu, Function.comp_def, State.extend_comm hsymbol]
      · simp [ht, hu]
    · simp [ht]
  exact congrArg (Automaton.mk · a.start a.alphabetSize) hstates

theorem addTransitions_eq_of_apart (h : us.Perm ts) (hapart : ts.Pairwise Transition.Apart)
    (hb : a.addTransitions ts = .ok b) (hc : a.addTransitions us = .ok c) : c = b := by
  obtain ⟨-, rfl⟩ := addTransitions_eq_ok.1 hb
  obtain ⟨-, rfl⟩ := addTransitions_eq_ok.1 hc
  refine h.foldl_eq' (fun t ht u hu d ↦ ?_) a
  by_cases heq : t = u
  · rw [heq]
  · exact withTransition_comm (hapart.forall (h.mem_iff.1 ht) (h.mem_iff.1 hu) heq) d

/-- Two automata have the same targets, in whatever order and number, and end in the same states. -/
structure SameTargets (a b : Automaton) : Prop where
  start_eq : a.start? = b.start?
  terminal_eq : ∀ q, a.isTerminalAt q = b.isTerminalAt q
  targets_iff : ∀ q x t, t ∈ a.targetsOf q x ↔ t ∈ b.targetsOf q x

namespace SameTargets

theorem acceptsFrom_eq (h : a.SameTargets b) (ha : a.WellFormed) (hb : b.WellFormed) (q : StateId)
    (w : Sample) : a.acceptsFrom q w = b.acceptsFrom q w := by
  rw [Bool.eq_iff_iff]
  induction w generalizing q with
  | nil => rw [ha.acceptsFrom_nil, hb.acceptsFrom_nil, h.terminal_eq]
  | cons x w ih => simp only [ha.acceptsFrom_cons, hb.acceptsFrom_cons, h.targets_iff, ih]

theorem accepts_eq (h : a.SameTargets b) (ha : a.WellFormed) (hb : b.WellFormed) (w : Sample) :
    a.accepts w = b.accepts w := by
  unfold accepts
  rw [h.start_eq]
  cases b.start? with
  | none => rfl
  | some q => exact h.acceptsFrom_eq ha hb q w

/-- If each target is listed as often, a word has as many paths. -/
theorem card_path_eq (h : a.SameTargets b)
    (hperm : ∀ q x, (a.targetsOf q x).Perm (b.targetsOf q x)) (q : StateId) (w : Sample) :
    Nat.card (a.Path q w) = Nat.card (b.Path q w) := by
  induction w generalizing q with
  | nil => rw [Path.card_nil, Path.card_nil, h.terminal_eq]
  | cons x w ih =>
    rw [Path.card_cons, Path.card_cons, ((hperm q x).map _).sum_nat]
    simp only [ih]

end SameTargets

theorem sameTargets_addTransitions (ha : a.WellFormed) (h : ∀ t, t ∈ us ↔ t ∈ ts)
    (hb : a.addTransitions ts = .ok b) (hc : a.addTransitions us = .ok c) : c.SameTargets b where
  start_eq := (start?_addTransitions hc).trans (start?_addTransitions hb).symm
  terminal_eq q := by
    have hnil : us.filter (·.source = q) = [] ↔ ts.filter (·.source = q) = [] := by
      simp only [List.filter_eq_nil_iff, h]
    rw [isTerminalAt_addTransitions hc, isTerminalAt_addTransitions hb]
    simp only [hnil]
  targets_iff q x t := by
    rw [ha.targetsOf_addTransitions hc, ha.targetsOf_addTransitions hb]
    cases a.states[q]? with
    | none => rfl
    | some s => simp only [Option.elim_some, List.mem_append, List.mem_flatMap, List.mem_filter, h]

theorem perm_targetsOf_addTransitions (ha : a.WellFormed) (h : us.Perm ts)
    (hb : a.addTransitions ts = .ok b) (hc : a.addTransitions us = .ok c) (q : StateId)
    (x : Symbol) : (c.targetsOf q x).Perm (b.targetsOf q x) := by
  rw [ha.targetsOf_addTransitions hc, ha.targetsOf_addTransitions hb]
  cases a.states[q]? with
  | none => exact .nil
  | some s => exact (((h.filter _).filter _).flatMap_right _).append_left _

/-- Two ways to list samples: with a bound on the length they list the same ones, each as often, and
in the same order if there is a reason for it. -/
def ListAlike (ordered : Prop) (walk walk' : Option Nat → Walk) : Prop :=
  ∀ bound, ∃ samples samples', Lists Walk.step (walk (some bound)) samples ∧
    Lists Walk.step (walk' (some bound)) samples' ∧ samples.Perm samples' ∧
    (ordered → samples = samples')

theorem listAlike_walkFrom (ha : a.WellFormed) (hb : b.WellFormed) {ordered : Prop} (q : StateId)
    (hcard : ∀ w, Nat.card (a.Path q w) = Nat.card (b.Path q w)) (heq : ordered → a = b) :
    ListAlike ordered (a.walkFrom q) (b.walkFrom q) := by
  intro bound
  refine ⟨_, _, Walk.lists_walkFrom a q bound, Walk.lists_walkFrom b q bound, ?_, fun h ↦ heq h ▸ rfl⟩
  refine List.perm_iff_count.2 fun w ↦ ?_
  rw [count_flatMap_wordsFrom, count_flatMap_wordsFrom, ha.count_wordsFrom, hb.count_wordsFrom,
    hcard]

theorem listAlike_walk (hstart : a.start? = b.start?) {ordered : Prop}
    (h : ∀ q, ListAlike ordered (a.walkFrom q) (b.walkFrom q)) :
    ListAlike ordered a.walk b.walk := by
  unfold walk
  rw [hstart]
  cases b.start? with
  | none =>
    have hempty (d : Automaton) (bound : Nat) : Lists Walk.step ⟨d, some bound, ⟨[], []⟩⟩ [] :=
      lists_of_steps (.zero _) rfl
    exact fun bound ↦ ⟨[], [], hempty a bound, hempty b bound, .nil, fun _ ↦ rfl⟩
  | some q => exact h q

/-- The calls that have added transitions to an automaton succeed in any order, and also if some of
them are made more often. The words that are accepted are the same, from each state and from the
start. In another order the calls also lead to the same samples, each as often, and even in the same
order if no two of the calls are about one state and symbol. -/
theorem Built.transitions_in_any_order (h : a.Built) (hb : a.addTransitions ts = .ok b) :
    (∀ us, us.Perm ts → ∃ c, a.addTransitions us = .ok c ∧
      (∀ q w, c.acceptsFrom q w = b.acceptsFrom q w) ∧ (∀ w, c.accepts w = b.accepts w) ∧
      (∀ q, ListAlike (ts.Pairwise Transition.Apart) (c.walkFrom q) (b.walkFrom q)) ∧
      ListAlike (ts.Pairwise Transition.Apart) c.walk b.walk) ∧
    ∀ us, (∀ t, t ∈ us ↔ t ∈ ts) → ∃ c, a.addTransitions us = .ok c ∧
      (∀ q w, c.acceptsFrom q w = b.acceptsFrom q w) ∧ ∀ w, c.accepts w = b.accepts w := by
  have ha := h.wellFormed
  have hadmits := (addTransitions_eq_ok.1 hb).1
  have hwords : ∀ us, (∀ t, t ∈ us ↔ t ∈ ts) → ∃ c, a.addTransitions us = .ok c ∧ c.Built ∧
      c.SameTargets b := by
    intro us hus
    have hc : a.addTransitions us = .ok (us.foldl withTransition a) :=
      addTransitions_eq_ok.2 ⟨fun t ht ↦ hadmits t ((hus t).1 ht), rfl⟩
    exact ⟨_, hc, h.addTransitions hc, sameTargets_addTransitions ha hus hb hc⟩
  have hb' := (h.addTransitions hb).wellFormed
  refine ⟨fun us hperm ↦ ?_, fun us hus ↦ ?_⟩
  · obtain ⟨c, hc, hbuilt, hsame⟩ := hwords us fun t ↦ hperm.mem_iff
    have hc' := hbuilt.wellFormed
    have hcard := hsame.card_path_eq (perm_targetsOf_addTransitions ha hperm hb hc)
    have hlist (q : StateId) :
        ListAlike (ts.Pairwise Transition.Apart) (c.walkFrom q) (b.walkFrom q) :=
      listAlike_walkFrom hc' hb' q (hcard q) fun hapart ↦
        addTransitions_eq_of_apart hperm hapart hb hc
    exact ⟨c, hc, hsame.acceptsFrom_eq hc' hb', hsame.accepts_eq hc' hb', hlist,
      listAlike_walk hsame.start_eq hlist⟩
  · obtain ⟨c, hc, hbuilt, hsame⟩ := hwords us hus
    have hc' := hbuilt.wellFormed
    exact ⟨c, hc, hsame.acceptsFrom_eq hc' hb', hsame.accepts_eq hc' hb'⟩

/-- Two calls on one state and symbol make another automaton in the other order, and another again
if the first is made twice. Two calls on two symbols list the same samples in the same order. -/
theorem transitions_in_any_order_shared :
    ∃ a b c d : Automaton, a.Built ∧ a.addTransitions [⟨0, 0, [1]⟩, ⟨0, 0, [0]⟩] = .ok b ∧
      a.addTransitions [⟨0, 0, [0]⟩, ⟨0, 0, [1]⟩] = .ok c ∧
      a.addTransitions [⟨0, 0, [1]⟩, ⟨0, 0, [0]⟩, ⟨0, 0, [1]⟩] = .ok d ∧ b ≠ c ∧ b ≠ d ∧
      (∃ samples samples', Lists Walk.step (c.walkFrom 0 (some 2)) samples ∧
        Lists Walk.step (b.walkFrom 0 (some 2)) samples' ∧ samples.Perm samples') ∧
      (∀ w, d.acceptsFrom 0 w = b.acceptsFrom 0 w) ∧
      ∃ e f, a.addTransitions [⟨0, 0, [1]⟩, ⟨0, 1, [1]⟩] = .ok e ∧
        a.addTransitions [⟨0, 1, [1]⟩, ⟨0, 0, [1]⟩] = .ok f ∧
        ∃ samples, Lists Walk.step (e.walkFrom 0 (some 1)) samples ∧
          Lists Walk.step (f.walkFrom 0 (some 1)) samples := by
  have ha : Built ⟨#[⟨[], false⟩, ⟨[], false⟩], 0, 2⟩ := .addStates 2 false (.empty 2)
  have hb : addTransitions ⟨#[⟨[], false⟩, ⟨[], false⟩], 0, 2⟩ [⟨0, 0, [1]⟩, ⟨0, 0, [0]⟩] =
      .ok ⟨#[⟨[(0, [1, 0])], false⟩, ⟨[], false⟩], 0, 2⟩ := rfl
  have he : addTransitions ⟨#[⟨[], false⟩, ⟨[], false⟩], 0, 2⟩ [⟨0, 0, [1]⟩, ⟨0, 1, [1]⟩] =
      .ok ⟨#[⟨[(0, [1]), (1, [1])], false⟩, ⟨[], false⟩], 0, 2⟩ := rfl
  obtain ⟨hperm, hrepeat⟩ := Built.transitions_in_any_order ha hb
  obtain ⟨c, hc, -, -, hlist, -⟩ := hperm [⟨0, 0, [0]⟩, ⟨0, 0, [1]⟩] (.swap _ _ [])
  obtain ⟨d, hd, haccepts, -⟩ := hrepeat [⟨0, 0, [1]⟩, ⟨0, 0, [0]⟩, ⟨0, 0, [1]⟩]
    (by simp [or_comm])
  obtain ⟨f, hf, -, -, hlist', -⟩ := (Built.transitions_in_any_order ha he).1
    [⟨0, 1, [1]⟩, ⟨0, 0, [1]⟩] (.swap _ _ [])
  have hbc : (⟨#[⟨[(0, [1, 0])], false⟩, ⟨[], false⟩], 0, 2⟩ : Automaton) ≠ c := by
    cases hc
    decide
  have hbd : (⟨#[⟨[(0, [1, 0])], false⟩, ⟨[], false⟩], 0, 2⟩ : Automaton) ≠ d := by
    cases hd
    decide
  obtain ⟨samples, samples', hsamples, hsamples', hmore, -⟩ := hlist 0 2
  obtain ⟨ordered, ordered', hordered, hordered', -, heq⟩ := hlist' 0 1
  obtain rfl := heq (by decide)
  exact ⟨_, _, c, d, ha, hb, hc, hd, hbc, hbd, ⟨samples, samples', hsamples, hsamples', hmore⟩,
    haccepts 0, _, f, he, hf, ordered, hordered', hordered⟩

end Automaton

end LangBench
