import LangBench.Dict
import LangBench.Proofs.Automaton.Search

/-!
What another transition makes of the words that an automaton accepts.

All paths stay, so words are lost only where a path may no longer end: in a state that was terminal
for want of transitions. The first entry puts an end to that, even one without targets.
-/

namespace LangBench

namespace State

variable {s : State} {x y : Symbol} {ts : List StateId} {es : List (Symbol × List StateId)}

theorem extendEntry_ne_nil (x : Symbol) (ts : List StateId) (es : List (Symbol × List StateId)) :
    extendEntry x ts es ≠ [] := by
  fun_cases extendEntry x ts es <;> exact List.cons_ne_nil _ _

theorem lookup_extendEntry (h : es.Pairwise fun e f ↦ e.1 < f.1) :
    (extendEntry x ts es).lookup y =
      if y = x then some ((es.lookup x).getD [] ++ ts) else es.lookup y := by
  induction es with
  | nil => exact lookup_cons_eq_ite y (x, ts) []
  | cons e es ih =>
    obtain ⟨he, hes⟩ := List.pairwise_cons.1 h
    unfold extendEntry
    split
    · next hlt =>
      have hafter : ∀ f ∈ e :: es, x < f.1 :=
        List.forall_mem_cons.2 ⟨hlt, fun f hf ↦ UInt32.lt_trans hlt (he f hf)⟩
      have hnone : (e :: es).lookup x = none := lookup_eq_none_of_lt hafter
      rw [hnone]
      exact lookup_cons_eq_ite y (x, ts) (e :: es)
    · split
      · next heq =>
        subst heq
        rw [lookup_cons_eq_ite, lookup_cons_eq_ite, lookup_cons_eq_ite, if_pos rfl]
        split <;> rfl
      · next hne =>
        rw [lookup_cons_eq_ite, lookup_cons_eq_ite, lookup_cons_eq_ite, ih hes, if_neg hne]
        by_cases hy : y = e.1
        · rw [if_pos hy, if_pos hy, if_neg fun h : y = x ↦ hne (h.symm.trans hy)]
        · rw [if_neg hy, if_neg hy]

theorem targets_extend (h : s.transitions.Pairwise fun e f ↦ e.1 < f.1) :
    (s.extend x ts).targets y = if y = x then s.targets x ++ ts else s.targets y := by
  unfold targets extend
  rw [lookup_extendEntry h]
  split <;> rfl

/-- A state is terminal by its flag alone unless it has neither the flag nor an entry. -/
theorem isTerminal_eq_terminal (h : s.terminal = true ∨ s.transitions ≠ []) :
    s.isTerminal = s.terminal := by
  rcases h with h | h <;> simp [isTerminal, h]

/-- Once it has an entry, a state is terminal only if it is flagged so. -/
theorem isTerminal_extend (s : State) (x : Symbol) (ts : List StateId) :
    (s.extend x ts).isTerminal = s.terminal := by
  exact isTerminal_eq_terminal (.inr (extendEntry_ne_nil x ts s.transitions))

end State

namespace Automaton

variable {a b : Automaton} {q source : StateId} {x : Symbol} {w : Sample} {ts : List StateId}
  {s : State} {route : List StateId}

/-- A path from a state that spells a word, given by the states that it comes to. -/
inductive Route (a : Automaton) : StateId → Sample → List StateId → Prop
  | nil (q : StateId) : Route a q [] []
  | cons {q t : StateId} {x : Symbol} {w : Sample} {route : List StateId} :
      t ∈ a.targetsOf q x → Route a t w route → Route a q (x :: w) (t :: route)

/-- Where a path from a state ends. -/
def lastState (q : StateId) (route : List StateId) : StateId := route.getLastD q

theorem lastState_cons (q t : StateId) (route : List StateId) :
    lastState q (t :: route) = lastState t route := List.getLastD_cons

structure AcceptingRoute (a : Automaton) (q : StateId) (w : Sample) (route : List StateId) :
    Prop where
  leads : a.Route q w route
  terminal : a.isTerminalAt (lastState q route) = true

theorem WellFormed.acceptsFrom_iff_route (ha : a.WellFormed) :
    a.acceptsFrom q w = true ↔ ∃ route, a.AcceptingRoute q w route := by
  induction w generalizing q with
  | nil =>
    rw [ha.acceptsFrom_nil]
    constructor
    · exact fun h ↦ ⟨[], .nil q, h⟩
    · rintro ⟨_, ⟨⟩, h⟩
      exact h
  | cons x w ih =>
    simp only [ha.acceptsFrom_cons, ih]
    constructor
    · rintro ⟨t, ht, route, hroute, hend⟩
      exact ⟨t :: route, .cons ht hroute, (lastState_cons q t route).symm ▸ hend⟩
    · rintro ⟨_, hleads, hend⟩
      cases hleads with
      | cons ht hroute => exact ⟨_, ht, _, hroute, lastState_cons q _ _ ▸ hend⟩

theorem Route.mono (hab : ∀ q x, a.targetsOf q x ⊆ b.targetsOf q x) (h : a.Route q w route) :
    b.Route q w route := by
  induction h with
  | nil q => exact .nil q
  | cons ht _ ih => exact .cons (hab _ _ ht) ih

/-- Only the state that the transition leaves is another one afterwards. -/
theorem getElem?_addTransition (hb : a.addTransition source x ts = .ok b) (q : StateId) :
    b.states[q]? = if source = q then a.states[q]?.map (·.extend x ts) else a.states[q]? := by
  obtain ⟨-, -, -, rfl⟩ := addTransition_eq_ok.1 hb
  exact Array.getElem?_modify

theorem WellFormed.targetsOf_addTransition (ha : a.WellFormed)
    (hb : a.addTransition source x ts = .ok b) (q : StateId) (y : Symbol) :
    a.targetsOf q y ⊆ b.targetsOf q y := by
  unfold targetsOf
  rw [getElem?_addTransition hb]
  split
  · cases hs : a.states[q]? with
    | none => exact List.Subset.refl _
    | some s =>
      simp only [Option.map_some, Option.elim_some]
      rw [State.targets_extend (ha.states s (Array.mem_of_getElem? hs)).ascending]
      split
      · next hy =>
        rw [hy]
        exact List.subset_append_left _ _
      · exact List.Subset.refl _
  · exact List.Subset.refl _

theorem isTerminalAt_addTransition_of_ne (hb : a.addTransition source x ts = .ok b)
    (hq : q ≠ source) : b.isTerminalAt q = a.isTerminalAt q := by
  rw [isTerminalAt, getElem?_addTransition hb, if_neg (Ne.symm hq), isTerminalAt]

theorem isTerminalAt_addTransition_self (hb : a.addTransition source x ts = .ok b)
    (hs : a.states[source]? = some s) : b.isTerminalAt source = s.terminal := by
  rw [isTerminalAt, getElem?_addTransition hb, if_pos rfl, hs]
  exact State.isTerminal_extend s x ts

theorem isTerminalAt_addTransition (hb : a.addTransition source x ts = .ok b)
    (hs : a.states[source]? = some s) (hkept : s.terminal = true ∨ s.transitions ≠ [])
    (q : StateId) : b.isTerminalAt q = a.isTerminalAt q := by
  by_cases hq : q = source
  · rw [hq, isTerminalAt_addTransition_self hb hs, isTerminalAt, hs]
    exact (State.isTerminal_eq_terminal hkept).symm
  · exact isTerminalAt_addTransition_of_ne hb hq

/-- A transition that is added takes no word away if the state it leaves is flagged terminal or has
an entry already. If not, an accepting path stays one unless it ends in that state, and is no longer
one if it does. -/
theorem acceptance_addTransition (h : a.Built) (hb : a.addTransition source x ts = .ok b) :
    (∀ q w, a.acceptsFrom q w = true ↔ ∃ route, a.AcceptingRoute q w route) ∧
    ∃ s, a.states[source]? = some s ∧
      (s.terminal = true ∨ s.transitions ≠ [] →
        ∀ q w, a.acceptsFrom q w = true → b.acceptsFrom q w = true) ∧
      (¬ (s.terminal = true ∨ s.transitions ≠ []) →
        ∀ q w route, a.AcceptingRoute q w route →
          (lastState q route ≠ source →
            b.AcceptingRoute q w route ∧ b.acceptsFrom q w = true) ∧
          (lastState q route = source →
            b.Route q w route ∧ ¬ b.AcceptingRoute q w route)) := by
  have ha := h.wellFormed
  have hb' := (h.addTransition hb).wellFormed
  have hsource := (addTransition_eq_ok.1 hb).1
  have hs : a.states[source]? = some a.states[source] := Array.getElem?_eq_getElem hsource
  have hself := isTerminalAt_addTransition_self hb hs
  have hstays {q : StateId} {w : Sample} {route : List StateId} (hr : a.AcceptingRoute q w route) :
      b.Route q w route := hr.leads.mono (ha.targetsOf_addTransition hb)
  refine ⟨fun q w ↦ ha.acceptsFrom_iff_route, _, hs, fun hkept q w hw ↦ ?_,
    fun hlost q w route hr ↦ ⟨fun hend ↦ ?_, fun hend ↦ ⟨hstays hr, fun hr' ↦ ?_⟩⟩⟩
  · obtain ⟨route, hr⟩ := ha.acceptsFrom_iff_route.1 hw
    have hend := (isTerminalAt_addTransition hb hs hkept _).trans hr.terminal
    exact hb'.acceptsFrom_iff_route.2 ⟨route, hstays hr, hend⟩
  · have hr' : b.AcceptingRoute q w route :=
      ⟨hstays hr, (isTerminalAt_addTransition_of_ne hb hend).trans hr.terminal⟩
    exact ⟨hr', hb'.acceptsFrom_iff_route.2 ⟨route, hr'⟩⟩
  · have hterminal := hr'.terminal
    rw [hend, hself] at hterminal
    exact hlost (.inl hterminal)

/-- A state that leads to itself and to two more, of which only the first may have entries. -/
def fork (entries : List (Symbol × List StateId)) : Automaton :=
  ⟨#[⟨[(0, [0, 1]), (1, [2])], false⟩, ⟨entries, false⟩, ⟨[], false⟩], 0, 2⟩

theorem built_fork : (fork []).Built := by
  have hfirst : addTransition ⟨#[⟨[], false⟩, ⟨[], false⟩, ⟨[], false⟩], 0, 2⟩ 0 0 [0, 1] =
      .ok ⟨#[⟨[(0, [0, 1])], false⟩, ⟨[], false⟩, ⟨[], false⟩], 0, 2⟩ := rfl
  have hsecond : addTransition ⟨#[⟨[(0, [0, 1])], false⟩, ⟨[], false⟩, ⟨[], false⟩], 0, 2⟩ 0 1 [2] =
      .ok (fork []) := rfl
  exact ((Built.addStates 3 false (.empty 2)).addTransition hfirst).addTransition hsecond

/-- A bare state gets an entry without targets, so that it is terminal no more, and then another. -/
theorem acceptance_addTransition_bare :
    ∃ a b c : Automaton, a.Built ∧ a.addTransition 1 1 [] = .ok b ∧
      b.addTransition 1 0 [2] = .ok c ∧ a.acceptsFrom 0 [0] = true ∧ b.Route 0 [0] [1] ∧
      ¬ b.AcceptingRoute 0 [0] [1] ∧ b.acceptsFrom 0 [0, 0, 1] = true ∧
      c.acceptsFrom 0 [0, 0, 1] = true := by
  have hb : (fork []).addTransition 1 1 [] = .ok (fork [(1, [])]) := rfl
  have hc : (fork [(1, [])]).addTransition 1 0 [2] = .ok (fork [(0, [2]), (1, [])]) := rfl
  obtain ⟨hroutes, s, hs, -, hlost⟩ := acceptance_addTransition built_fork hb
  obtain ⟨-, s', hs', hkept, -⟩ := acceptance_addTransition (built_fork.addTransition hb) hc
  cases hs
  cases hs'
  have hroute : (fork []).AcceptingRoute 0 [0] [1] := ⟨.cons (by decide) (.nil 1), rfl⟩
  have hlong : (fork []).AcceptingRoute 0 [0, 0, 1] [0, 0, 2] :=
    ⟨.cons (by decide) (.cons (by decide) (.cons (by decide) (.nil 2))), rfl⟩
  have hafter := hlost (by simp [fork])
  obtain ⟨hleads, hends⟩ := (hafter 0 [0] [1] hroute).2 rfl
  obtain ⟨-, hstill⟩ := (hafter 0 [0, 0, 1] [0, 0, 2] hlong).1 (by decide)
  exact ⟨_, _, _, built_fork, hb, hc, (hroutes 0 [0]).2 ⟨[1], hroute⟩, hleads, hends, hstill,
    hkept (.inr (by simp [fork])) 0 [0, 0, 1] hstill⟩

end Automaton

end LangBench
