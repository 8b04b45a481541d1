import LangBench.Proofs.Net.Counts

/-!
The order of its training samples does not matter to a net that counts.

Two observations can be exchanged: each adds one to tallies along its own history, and where the
histories part, it is different branches of the tree that grow.
-/

namespace LangBench

section bindSymbol

variable {α : Type}

theorem bindSymbol_bindSymbol (x : Symbol) (v w : α) (es : List (Symbol × α)) :
    bindSymbol x v (bindSymbol x w es) = bindSymbol x v es := by
  induction es with
  | nil => simp [bindSymbol]
  | cons e es ih => grind [bindSymbol]

/-- Bindings of different symbols do not touch each other. -/
theorem bindSymbol_comm {x y : Symbol} (h : x ≠ y) (v w : α) (es : List (Symbol × α)) :
    bindSymbol x v (bindSymbol y w es) = bindSymbol y w (bindSymbol x v es) := by
  induction es with
  | nil => grind [bindSymbol]
  | cons e es ih => grind [bindSymbol]

end bindSymbol

theorem Tally.add_comm (x y : Symbol) (t : Tally) : (t.add x).add y = (t.add y).add x := by
  by_cases h : x = y
  · rw [h]
  · have hx : (t.add y).count x = t.count x := by rw [count_add, if_neg h]
    have hy : (t.add x).count y = t.count y := by rw [count_add, if_neg (Ne.symm h)]
    have hcounts : ((t.add x).add y).counts = ((t.add y).add x).counts := by
      calc bindSymbol y ((t.add x).count y + 1) (bindSymbol x (t.count x + 1) t.counts)
        _ = bindSymbol y (t.count y + 1) (bindSymbol x (t.count x + 1) t.counts) := by rw [hy]
        _ = bindSymbol x (t.count x + 1) (bindSymbol y (t.count y + 1) t.counts) :=
          bindSymbol_comm (Ne.symm h) _ _ _
        _ = bindSymbol x ((t.add y).count x + 1) (bindSymbol y (t.count y + 1) t.counts) := by
          rw [hx]
    exact congrArg (Tally.mk t.width) hcounts

namespace ContextTree

variable {width : Nat} {known : Option ContextTree} {t u : ContextTree} {x y : Symbol}
  {history history' : List Symbol}

/-- Two observations can be exchanged. -/
theorem observe_comm (hx : observe width x history known = .ok t)
    (hy : observe width y history' (some t) = .ok u) :
    ∃ s, observe width y history' known = .ok s ∧ observe width x history (some s) = .ok u := by
  induction history generalizing history' known t u with
  | nil =>
    obtain ⟨hwidth, rfl⟩ := observe_nil_eq_ok.1 hx
    cases history' with
    | nil =>
      obtain ⟨hwidth', rfl⟩ := observe_nil_eq_ok.1 hy
      exact ⟨_, observe_nil_eq_ok.2 ⟨hwidth', rfl⟩,
        observe_nil_eq_ok.2 ⟨hwidth, congrArg (node · _) (Tally.add_comm x y _)⟩⟩
    | cons z' older' =>
      obtain ⟨hwidth', l, hl, rfl⟩ := observe_cons_eq_ok.1 hy
      exact ⟨_, observe_cons_eq_ok.2 ⟨hwidth', l, hl, rfl⟩,
        observe_nil_eq_ok.2 ⟨hwidth, congrArg (node · _) (Tally.add_comm x y _)⟩⟩
  | cons z older ih =>
    obtain ⟨hwidth, l, hl, rfl⟩ := observe_cons_eq_ok.1 hx
    cases history' with
    | nil =>
      obtain ⟨hwidth', rfl⟩ := observe_nil_eq_ok.1 hy
      exact ⟨_, observe_nil_eq_ok.2 ⟨hwidth', rfl⟩,
        observe_cons_eq_ok.2 ⟨hwidth, l, hl, congrArg (node · _) (Tally.add_comm x y _)⟩⟩
    | cons z' older' =>
      obtain ⟨hwidth', l', hl', rfl⟩ := observe_cons_eq_ok.1 hy
      by_cases hz : z' = z
      · -- both go on in the same branch
        subst hz
        have hbranch : observe width y older' (some l) = .ok l' := by
          simpa [longer, lookup_bindSymbol] using hl'
        obtain ⟨k, hk, hk'⟩ := ih hl hbranch
        refine ⟨_, observe_cons_eq_ok.2 ⟨hwidth', k, hk, rfl⟩,
          observe_cons_eq_ok.2 ⟨hwidth, l', ?_, ?_⟩⟩
        · simpa [longer, lookup_bindSymbol] using hk'
        · simp [longer, tally, bindSymbol_bindSymbol, Tally.add_comm x y]
      · -- the histories part here
        refine ⟨_, observe_cons_eq_ok.2 ⟨hwidth', l', ?_, rfl⟩,
          observe_cons_eq_ok.2 ⟨hwidth, l, ?_, ?_⟩⟩
        · simpa [longer, lookup_bindSymbol, hz] using hl'
        · simpa [longer, lookup_bindSymbol, Ne.symm hz] using hl
        · simp [longer, tally, bindSymbol_comm hz, Tally.add_comm x y]

theorem note_comm {known known' known'' : Option ContextTree} {o o' : List Symbol × Symbol}
    (h : note width known o = .ok known') (h' : note width known' o' = .ok known'') :
    ∃ k, note width known o' = .ok k ∧ note width k o = .ok known'' := by
  obtain ⟨t, ht, rfl⟩ := map_eq_ok.1 h
  obtain ⟨u, hu, rfl⟩ := map_eq_ok.1 h'
  obtain ⟨s, hs, hsu⟩ := observe_comm ht hu
  exact ⟨some s, map_eq_ok.2 ⟨s, hs, rfl⟩, map_eq_ok.2 ⟨u, hsu, rfl⟩⟩

end ContextTree

namespace Markov

open ContextTree

variable {m m' : Markov} {samples given : List Sample}

/-- What a net has counted depends neither on the order of the samples that it heeds nor on those
that it ignores. -/
theorem absorbAll_perm (hperm : (m.heeded samples).Perm (m.heeded given))
    (h : Net.markov.absorbAll m samples = .ok m') : Net.markov.absorbAll m given = .ok m' := by
  obtain ⟨contexts, hcontexts, rfl⟩ := map_eq_ok.1 ((absorbAll_eq m samples).symm.trans h)
  have hobs : (m.observationsOf samples).Perm (m.observationsOf given) := hperm.flatMap_right _
  have hgiven := foldlM_perm (f := note (m.alphabetSize + 1)) (fun _ _ _ _ _ ↦ note_comm) hobs
    hcontexts
  rw [absorbAll_eq, hgiven]
  rfl

/-- From any state of a net that has been prepared, two ways to train it with the same samples of
its alphabet, however these are ordered and split up and whatever else is among them, lead to the
same state. So the net counts the same and returns the same candidates to all later calls. -/
theorem training_order_irrelevant {params : Params} {fresh m m' : Markov} {before : List Net.Call}
    {out : List Sample} (hinit : Net.markov.init params fresh = (.ok (), m))
    (hbefore : Net.markov.calls m before = .ok (out, m')) {first second : List (List Sample)}
    (hperm : (first.flatten.filter (·.withinAlphabet m.alphabetSize)).Perm
      (second.flatten.filter (·.withinAlphabet m.alphabetSize))) :
    ∃ trained, Net.markov.calls m' (first.map .train) = .ok ([], trained) ∧
      Net.markov.calls m' (second.map .train) = .ok ([], trained) ∧
      ∀ later, ∃ candidates last,
        Net.markov.calls m' (first.map .train ++ later) = .ok (candidates, last) ∧
        Net.markov.calls m' (second.map .train ++ later) = .ok (candidates, last) := by
  have h : Succeeds (init params) fresh () m := hinit
  obtain ⟨_, contexts, stream, hcalls, hcounted⟩ := (hasCounted_of_init h).calls before
  obtain ⟨rfl, rfl⟩ := Prod.mk.inj (Except.ok.inj (hcalls.symm.trans hbefore))
  obtain ⟨contexts', hfirst, hcounted'⟩ := hcounted.absorbAll first.flatten
  have hsecond := absorbAll_perm (m := { m with contexts, stream }) hperm hfirst
  have hcalls₁ := Net.calls_train (fun _ ↦ rfl) hfirst
  have hcalls₂ := Net.calls_train (fun _ ↦ rfl) hsecond
  refine ⟨_, hcalls₁, hcalls₂, fun later ↦ ?_⟩
  obtain ⟨candidates, contexts'', stream'', hlater, -⟩ := hcounted'.calls later
  exact ⟨candidates, _, Net.calls_append hcalls₁ hlater, Net.calls_append hcalls₂ hlater⟩

/-- The samples `[7]` and `[9]` are outside the alphabet. -/
theorem training_order_irrelevant_pair :
    ∃ m, Net.markov.init (.ofList [("max_length", .ofNat 4), ("alphabet_size", .ofNat 2),
        ("order", .ofNat 1), ("seed", .ofNat 7)]) Markov.fresh = (.ok (), m) ∧
      ∃ out m' trained, Net.markov.calls m [.train [[0]], .generate] = .ok (out, m') ∧
        Net.markov.calls m' [.train [[0, 1]], .train [[7], [1]]] = .ok ([], trained) ∧
        Net.markov.calls m' [.train [[1], [0, 1], [9]]] = .ok ([], trained) := by
  have hinit : Net.markov.init (.ofList [("max_length", .ofNat 4), ("alphabet_size", .ofNat 2),
      ("order", .ofNat 1), ("seed", .ofNat 7)]) Markov.fresh =
      (.ok (), (⟨1, 4, 2, none, .ofSeed 7⟩ : Markov)) := by rfl
  obtain ⟨out, _, _, hbefore, -⟩ := (hasCounted_of_init hinit).calls [.train [[0]], .generate]
  have hperm : (([[[0, 1]], [[7], [1]]] : List (List Sample)).flatten.filter
      (·.withinAlphabet 2)).Perm
        (([[[1], [0, 1], [9]]] : List (List Sample)).flatten.filter (·.withinAlphabet 2)) := by
    decide
  obtain ⟨trained, hfirst, hsecond, -⟩ := training_order_irrelevant hinit hbefore hperm
  exact ⟨_, hinit, out, _, trained, hbefore, hfirst, hsecond⟩

end Markov

end LangBench
