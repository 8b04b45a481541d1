import LangBench.Proofs.Net.Calls
import LangBench.Proofs.Net.Candidates
import LangBench.Proofs.Net.Contexts

/-!
A net knows how often it has seen a symbol after a context.

Training comes to a row of observations, each of a symbol after a history of `order` symbols. An
observation is counted after all contexts at the end of its history. What is counted of all
observations that have been made is kept by whatever is done with the net.
-/

namespace LangBench

variable {width : Nat} {known : Option ContextTree} {seen : List (List Symbol × Symbol)}
  {context history : List Symbol} {x y : Symbol}

namespace Tally

variable {t : Tally} {e : Symbol × Nat}

/-- All symbols that are listed have been counted. -/
def Positive (t : Tally) : Prop := ∀ e ∈ t.counts, 0 < e.2

theorem Positive.add (h : t.Positive) (x : Symbol) : (t.add x).Positive := by
  intro e he
  rcases mem_bindSymbol he with rfl | he
  · exact Nat.succ_pos _
  · exact h e he

theorem Positive.count_pos (h : t.Positive) (he : e ∈ t.counts) : 0 < t.count e.1 := by
  have hbound : (t.counts.lookup e.1).isSome := List.lookup_isSome_iff.2 ⟨e, he, beq_self_eq_true _⟩
  obtain ⟨n, hn⟩ := Option.isSome_iff_exists.1 hbound
  obtain ⟨before, after, hcounts, -⟩ := List.lookup_eq_some_iff.1 hn
  rw [count, hn]
  exact h (e.1, n) (by simp [hcounts])

theorem totalWeight_pos_of_count (h : 0 < t.count x) : 0 < Draw.totalWeight t.counts := by
  rw [count] at h
  cases hn : t.counts.lookup x with
  | none => simp [hn] at h
  | some n =>
    obtain ⟨before, after, hcounts, -⟩ := List.lookup_eq_some_iff.1 hn
    rw [hn] at h
    exact Draw.totalWeight_pos (e := (x, n)) (by simp [hcounts]) h

end Tally

namespace ContextTree

/-- How often a symbol has been counted after a context. -/
def countAfter (known : Option ContextTree) (context : List Symbol) (x : Symbol) : Nat :=
  (tallyOf? known context).elim 0 (·.count x)

theorem count_getD : ((tallyOf? known context).getD (.empty width)).count x =
    countAfter known context x := by
  rw [countAfter]
  cases tallyOf? known context <;> rfl

/-- Make an observation: count a symbol after all contexts at the end of a history. -/
def note (width : Nat) (known : Option ContextTree) (o : List Symbol × Symbol) :
    Except NetFault (Option ContextTree) :=
  (observe width o.2 o.1 known).map some

/-- What is known is what has been seen: each symbol is counted after a context as often as it has
been observed after a history that ends with the context. -/
structure Counts (width : Nat) (known : Option ContextTree) (seen : List (List Symbol × Symbol)) :
    Prop where
  count_eq : ∀ context x,
    countAfter known context x = seen.countP fun o ↦ context <+: o.1 ∧ o.2 = x
  isSome_iff : ∀ context, (tallyOf? known context).isSome ↔ ∃ o ∈ seen, context <+: o.1
  width_eq : ∀ context tally, tallyOf? known context = some tally → tally.width = width
  positive : ∀ context tally, tallyOf? known context = some tally → tally.Positive

theorem counts_none (width : Nat) : Counts width none [] :=
  ⟨fun _ _ ↦ rfl, fun _ ↦ by simp [tallyOf?], nofun, nofun⟩

theorem Counts.observe {t : ContextTree} (h : Counts width known seen)
    (ht : ContextTree.observe width x history known = .ok t) :
    Counts width (some t) (seen ++ [(history, x)]) := by
  have hfind (c : List Symbol) : tallyOf? (some t) c = _ := find?_observe ht c
  refine ⟨fun c y ↦ ?_, fun c ↦ ?_, fun c tally hc ↦ ?_, fun c tally hc ↦ ?_⟩
  · rw [countAfter, hfind, List.countP_append, List.countP_singleton, ← h.count_eq]
    by_cases hpre : c <+: history
    · rw [if_pos hpre, Option.elim_some, Tally.count_add, count_getD, count_getD]
      by_cases hy : y = x
      · simp [hpre, hy]
      · simp [hpre, hy, Ne.symm hy]
    · simp [hpre, countAfter]
  · rw [hfind]
    by_cases hpre : c <+: history
    · simp [hpre]
    · simp [hpre, h.isSome_iff]
  · rw [hfind] at hc
    split at hc
    · obtain rfl := Option.some.inj hc
      cases hk : tallyOf? known c with
      | none => rfl
      | some tally => exact h.width_eq c tally hk
    · exact h.width_eq c tally hc
  · rw [hfind] at hc
    split at hc
    · obtain rfl := Option.some.inj hc
      refine Tally.Positive.add ?_ x
      cases hk : tallyOf? known c with
      | none => exact nofun
      | some tally => exact h.positive c tally hk
    · exact h.positive c tally hc

theorem Counts.exists_mem (h : Counts width known seen) (hpos : 0 < countAfter known context x) :
    ∃ o ∈ seen, context <+: o.1 ∧ o.2 = x := by
  rw [h.count_eq, List.countP_pos_iff] at hpos
  simpa using hpos

/-- Something has been counted after every known context. -/
theorem Counts.totalWeight_pos (h : Counts width known seen) {tally : Tally}
    (htally : tallyOf? known context = some tally) : 0 < Draw.totalWeight tally.counts := by
  obtain ⟨o, ho, hpre⟩ := (h.isSome_iff context).1 (by rw [htally]; rfl)
  have hcount : countAfter known context o.2 = tally.count o.2 := by rw [countAfter, htally]; rfl
  refine Tally.totalWeight_pos_of_count (x := o.2) ?_
  rw [← hcount, h.count_eq, List.countP_pos_iff]
  exact ⟨o, ho, by simpa using hpre⟩

/-- Observations of symbols that tallies are wide enough for can all be made. -/
theorem Counts.foldlM (h : Counts width known seen) {made : List (List Symbol × Symbol)}
    (hmade : ∀ o ∈ made, o.2.toNat < width) :
    ∃ known', made.foldlM (note width) known = .ok known' ∧
      Counts width known' (seen ++ made) := by
  induction made generalizing known seen with
  | nil => exact ⟨known, rfl, by rwa [List.append_nil]⟩
  | cons o made ih =>
    obtain ⟨ho, hmade⟩ := List.forall_mem_cons.1 hmade
    obtain ⟨t, ht⟩ := exists_observe h.width_eq ho o.1
    obtain ⟨known', hrest, hcounts⟩ := ih (h.observe ht) hmade
    refine ⟨known', ?_, by simpa using hcounts⟩
    rw [List.foldlM_cons, note, ht]
    exact hrest

end ContextTree

namespace Markov

open ContextTree

variable {m m' : Markov} {order : Nat} {row : List Symbol} {samples given : List Sample}

/-- The observations along a row of symbols after a history. -/
def observations (order : Nat) (history : List Symbol) :
    List Symbol → List (List Symbol × Symbol)
  | [] => []
  | x :: rest => (history.take order, x) :: observations order (x :: history) rest

theorem mem_observations_iff : (context, x) ∈ observations order history row ↔
    ∃ before after, row = before ++ x :: after ∧
      context = (before.reverse ++ history).take order := by
  induction row generalizing history with
  | nil => simp [observations]
  | cons y row ih =>
    rw [observations, List.mem_cons, ih, Prod.mk.injEq]
    constructor
    · intro h
      rcases h with ⟨rfl, rfl⟩ | ⟨before, after, rfl, rfl⟩
      · exact ⟨[], row, rfl, rfl⟩
      · exact ⟨y :: before, after, rfl, by simp⟩
    · intro hex
      obtain ⟨before, after, hrow, rfl⟩ := hex
      cases before with
      | nil =>
        obtain ⟨rfl, rfl⟩ := List.cons.inj hrow
        exact .inl ⟨rfl, rfl⟩
      | cons z before =>
        obtain ⟨rfl, rfl⟩ := List.cons.inj hrow
        exact .inr ⟨before, after, rfl, by simp⟩

theorem observeAll_eq (width order : Nat) (history row : List Symbol)
    (known : Option ContextTree) : observeAll width order history row known =
      (observations order history row).foldlM (note width) known := by
  induction row generalizing history known with
  | nil => rfl
  | cons x row ih =>
    rw [observeAll, observations, List.foldlM_cons, note]
    cases ContextTree.observe width x (history.take order) known with
    | error e => rfl
    | ok t => exact ih (x :: history) (some t)

/-- The observations along a sample between boundaries. -/
def sampleObservations (m : Markov) (x : Sample) : List (List Symbol × Symbol) :=
  observations m.order (List.replicate m.order m.boundary) (x ++ [m.boundary])

/-- The samples that a net does not ignore. -/
def heeded (m : Markov) (samples : List Sample) : List Sample :=
  samples.filter (·.withinAlphabet m.alphabetSize)

theorem mem_heeded_iff {z : Sample} :
    z ∈ m.heeded samples ↔ z ∈ samples ∧ z.withinAlphabet m.alphabetSize = true := List.mem_filter

def observationsOf (m : Markov) (samples : List Sample) : List (List Symbol × Symbol) :=
  (m.heeded samples).flatMap m.sampleObservations

theorem observationsOf_append (m : Markov) (samples given : List Sample) :
    m.observationsOf (samples ++ given) = m.observationsOf samples ++ m.observationsOf given := by
  simp [observationsOf, heeded]

theorem toNat_boundary_le (m : Markov) : m.boundary.toNat ≤ m.alphabetSize := by
  rw [boundary, UInt32.toNat_ofNat']
  exact Nat.mod_le _ _

/-- Observations are of symbols of the alphabet and the boundary, after histories of such symbols
that are all of one length. -/
theorem of_mem_observationsOf {o : List Symbol × Symbol} (h : o ∈ m.observationsOf samples) :
    o.1.length = m.order ∧ ∀ z ∈ o.2 :: o.1, z.toNat ≤ m.alphabetSize := by
  obtain ⟨x, hx, ho⟩ := List.mem_flatMap.1 h
  obtain ⟨before, after, hrow, hcontext⟩ := mem_observations_iff.1 ho
  have hwithin := Sample.withinAlphabet_iff.1 (mem_heeded_iff.1 hx).2
  have hall : ∀ z ∈ before ++ o.2 :: after, z.toNat ≤ m.alphabetSize := by
    rw [← hrow, List.forall_mem_append, List.forall_mem_singleton]
    exact ⟨fun z hz ↦ Nat.le_of_lt (hwithin z hz), m.toNat_boundary_le⟩
  rw [List.forall_mem_append, List.forall_mem_cons] at hall
  refine ⟨by rw [hcontext]; simp, List.forall_mem_cons.2 ⟨hall.2.1, fun z hz ↦ ?_⟩⟩
  rw [hcontext] at hz
  rcases List.mem_append.1 (List.mem_of_mem_take hz) with hz | hz
  · exact hall.1 z (List.mem_reverse.1 hz)
  · obtain rfl := List.eq_of_mem_replicate hz
    exact m.toNat_boundary_le

theorem absorb_eq (m : Markov) (x : Sample) : m.absorb x =
    ((m.observationsOf [x]).foldlM (note (m.alphabetSize + 1)) m.contexts).map
      fun contexts ↦ { m with contexts } := by
  rw [absorb]
  split
  · next hx =>
    have hobs : m.observationsOf [x] = m.sampleObservations x := by
      simp [observationsOf, heeded, hx]
    rw [hobs, sampleObservations, ← observeAll_eq]
  · next hx =>
    have hobs : m.observationsOf [x] = [] := by simp [observationsOf, heeded, hx]
    rw [hobs]
    rfl

/-- Absorbing samples comes to making their observations. -/
theorem absorbAll_eq (m : Markov) (samples : List Sample) : Net.markov.absorbAll m samples =
    ((m.observationsOf samples).foldlM (note (m.alphabetSize + 1)) m.contexts).map
      fun contexts ↦ { m with contexts } := by
  induction samples generalizing m with
  | nil => rfl
  | cons x samples ih =>
    have hcons : Net.markov.absorbAll m (x :: samples) =
        (m.absorb x).bind fun m ↦ Net.markov.absorbAll m samples := List.foldlM_cons ..
    have hobs : m.observationsOf (x :: samples) =
        m.observationsOf [x] ++ m.observationsOf samples := m.observationsOf_append [x] samples
    rw [hcons, absorb_eq, hobs, List.foldlM_append]
    cases (m.observationsOf [x]).foldlM (note (m.alphabetSize + 1)) m.contexts with
    | error e => rfl
    | ok contexts => exact ih { m with contexts }

/-- What a net has counted are the samples that it has been offered. -/
def HasCounted (m : Markov) (samples : List Sample) : Prop :=
  Counts (m.alphabetSize + 1) m.contexts (m.observationsOf samples)

theorem hasCounted_of_init {params : Params} (h : Succeeds (init params) m () m') :
    m'.HasCounted [] := by
  unfold init at h
  simp only [succeeds_bind, succeeds_liftExcept, succeeds_modify] at h
  obtain ⟨_, _, -, _, _, -, _, _, -, _, _, -, _, _, -, _, _, -, _, _, -, rfl⟩ := h
  exact counts_none _

/-- No sample makes the net stop, and all it changes by them is what it has counted. -/
theorem HasCounted.absorbAll (hm : m.HasCounted samples) (given : List Sample) :
    ∃ contexts, Net.markov.absorbAll m given = .ok { m with contexts } ∧
      ({ m with contexts } : Markov).HasCounted (samples ++ given) := by
  have hwidth : ∀ o ∈ m.observationsOf given, o.2.toNat < m.alphabetSize + 1 :=
    fun o ho ↦ Nat.lt_succ_of_le ((of_mem_observationsOf ho).2 _ List.mem_cons_self)
  obtain ⟨contexts, hmade, hcounts⟩ := hm.foldlM hwidth
  refine ⟨contexts, by rw [absorbAll_eq, hmade]; rfl, ?_⟩
  rw [← observationsOf_append] at hcounts
  exact hcounts

theorem HasCounted.call (hm : m.HasCounted samples) (c : Net.Call) :
    ∃ out contexts stream, Net.markov.call m c = .ok (out, { m with contexts, stream }) ∧
      ({ m with contexts, stream } : Markov).HasCounted (samples ++ c.samples) := by
  cases c with
  | train given =>
    obtain ⟨contexts, habsorb, hcounted⟩ := hm.absorbAll given
    exact ⟨[], contexts, m.stream, Net.call_train (fun _ ↦ rfl) habsorb, hcounted⟩
  | generate =>
    refine ⟨[m.generate.1], m.contexts, m.generate.2.stream, rfl, ?_⟩
    rw [Net.Call.samples, List.append_nil]
    exact hm

/-- No calls make the net stop, and of its settings they change none. -/
theorem HasCounted.calls (hm : m.HasCounted samples) (calls : List Net.Call) :
    ∃ out contexts stream, Net.markov.calls m calls = .ok (out, { m with contexts, stream }) ∧
      ({ m with contexts, stream } : Markov).HasCounted (samples ++ Net.samplesOf calls) := by
  induction calls generalizing m samples with
  | nil => exact ⟨[], m.contexts, m.stream, rfl, by rwa [Net.samplesOf, List.flatMap_nil,
      List.append_nil]⟩
  | cons c calls ih =>
    obtain ⟨out, contexts, stream, hcall, hcounted⟩ := hm.call c
    obtain ⟨out', contexts', stream', hcalls, hcounted'⟩ := ih hcounted
    refine ⟨out ++ out', contexts', stream', Net.calls_cons hcall hcalls, ?_⟩
    rwa [Net.samplesOf, List.flatMap_cons, ← List.append_assoc]

theorem observationsOf_eq_nil_iff : m.observationsOf samples = [] ↔ m.heeded samples = [] := by
  rw [observationsOf, List.flatMap_eq_nil_iff, List.eq_nil_iff_forall_not_mem]
  refine forall₂_congr fun x _ ↦ iff_of_false (fun hnone ↦ ?_) not_false
  cases x <;> simp [sampleObservations, observations] at hnone

/-- Only contexts up to the order are known. -/
theorem HasCounted.length_le (hm : m.HasCounted samples)
    (h : (tallyOf? m.contexts context).isSome) : context.length ≤ m.order := by
  obtain ⟨o, ho, hpre⟩ := (hm.isSome_iff context).1 h
  rw [← (of_mem_observationsOf ho).1]
  exact hpre.length_le

/-- A symbol that is drawn by weight has been counted after the longest known context at the end of
the history. -/
theorem HasCounted.of_weighted (hm : m.HasCounted samples) {s : WordStream}
    (h : ((Draw.weighted (m.weights history)).run s).1 = some x) :
    ∃ context, context <+: history ∧ (tallyOf? m.contexts context).isSome ∧
      (∀ c, c <+: history → (tallyOf? m.contexts c).isSome → c <+: context) ∧
      0 < countAfter m.contexts context x := by
  have hpos : 0 < Draw.totalWeight (m.weights history) := by
    refine Nat.pos_of_ne_zero fun hzero ↦ ?_
    rw [(Draw.weighted_eq_none_iff s).2 hzero] at h
    exact nomatch h
  obtain ⟨e, he, hdrawn, -⟩ := Draw.exists_weighted hpos s
  obtain rfl := Option.some.inj (h.symm.trans hdrawn)
  rw [weights] at he
  cases hcontexts : m.contexts with
  | none => simp [hcontexts] at he
  | some t =>
    rw [hcontexts] at he
    obtain ⟨context, hpre, hfind, hmax⟩ := t.exists_longest (history.take m.order)
    have htally : tallyOf? m.contexts context = some (t.longest (history.take m.order)) := by
      rw [hcontexts]
      exact hfind
    refine ⟨context, (List.prefix_take_iff.1 hpre).1, ?_, fun c hc hknown ↦ ?_, ?_⟩
    · rw [← hcontexts, htally]
      rfl
    · rw [← hcontexts] at hknown
      have htake := List.prefix_take_iff.2 ⟨hc, hm.length_le hknown⟩
      rw [hcontexts] at hknown
      exact hmax c htake hknown
    · rw [← hcontexts, countAfter, htally]
      exact (hm.positive _ _ htally).count_pos he

/-- There is no weight to draw by just if no sample has been heeded. -/
theorem HasCounted.weighted_eq_none_iff (hm : m.HasCounted samples) (history : List Symbol)
    (s : WordStream) :
    ((Draw.weighted (m.weights history)).run s).1 = none ↔ m.heeded samples = [] := by
  rw [Draw.weighted_eq_none_iff, ← observationsOf_eq_nil_iff, List.eq_nil_iff_forall_not_mem]
  have hroot : (tallyOf? m.contexts []).isSome ↔ ∃ o, o ∈ m.observationsOf samples := by
    simp [hm.isSome_iff]
  rw [← not_exists, ← hroot, weights]
  cases hcontexts : m.contexts with
  | none => exact iff_of_true rfl nofun
  | some t =>
    obtain ⟨context, -, hfind, -⟩ := t.exists_longest (history.take m.order)
    have htally : tallyOf? m.contexts context = some (t.longest (history.take m.order)) := by
      rwa [hcontexts]
    exact iff_of_false (Nat.ne_of_gt (hm.totalWeight_pos htally)) (not_not_intro rfl)

theorem draw_of_weighted {s : WordStream}
    (h : ((Draw.weighted (m.weights history)).run s).1 = some x) :
    ((m.draw history).run s).1 = x := by
  cases hrun : (Draw.weighted (m.weights history)).run s with
  | mk r s' =>
    obtain rfl : r = some x := by rw [← h, hrun]
    rw [draw, StateT.run_bind, hrun]
    rfl

/-- Without anything to draw by, a symbol is drawn uniformly from the alphabet and the boundary. -/
theorem draw_eq_below (h : Draw.totalWeight (m.weights history) = 0) :
    m.draw history =
      UInt32.ofNat <$> Draw.below Draw.word32 UInt32.size (m.boundary.toNat + 1) := by
  rw [draw, Draw.weighted, if_pos h, pure_bind, map_eq_pure_bind]

end Markov

end LangBench
