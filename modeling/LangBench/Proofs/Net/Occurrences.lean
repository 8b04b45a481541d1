import Mathlib.Algebra.BigOperators.Group.Finset.Piecewise
import Mathlib.Algebra.GroupWithZero.Nat
import LangBench.Proofs.Net.Counts

/-!
The counts of a net are numbers of occurrences in the samples that it has been trained on.

Contexts and histories are written here as they are read, first symbol first. The tree holds them
the other way round.
-/

namespace LangBench

variable {known : Option ContextTree} {seen : List (List Symbol × Symbol)}
  {context history : List Symbol} {x y : Symbol}

/-- What is counted splits up by a number that everything has. -/
theorem countP_eq_sum {α : Type} {xs : List α} (p : α → Prop) [DecidablePred p] (f : α → Nat)
    {n : Nat} (hf : ∀ e ∈ xs, f e < n) :
    xs.countP p = ∑ k ∈ Finset.range n, xs.countP fun e ↦ p e ∧ f e = k := by
  induction xs with
  | nil => simp
  | cons e xs ih =>
    obtain ⟨he, hf⟩ := List.forall_mem_cons.1 hf
    have hone : (if p e then 1 else 0) =
        ∑ k ∈ Finset.range n, if p e ∧ f e = k then 1 else 0 := by
      by_cases hp : p e
      · simp only [hp, true_and, if_true]
        rw [Finset.sum_ite_eq, if_pos (Finset.mem_range.2 he)]
      · simp [hp]
    simp only [List.countP_cons, decide_eq_true_eq, Finset.sum_add_distrib, ih hf, hone]

theorem append_singleton_prefix_iff (h : context.length < history.length) :
    context ++ [x] <+: history ↔ context <+: history ∧ history[context.length] = x := by
  constructor
  · intro hpre
    obtain ⟨rest, rfl⟩ := hpre
    simp
  · intro hboth
    obtain ⟨⟨rest, rfl⟩, rfl⟩ := hboth
    cases rest with
    | nil => simp at h
    | cons z rest => simp

/-- What has been counted after a context that has older symbols before it everywhere has been
counted after one of the contexts that are longer by one symbol. -/
theorem ContextTree.Counts.countAfter_eq_sum {width n : Nat} (h : Counts width known seen)
    (hn : n ≤ UInt32.size)
    (hseen : ∀ o ∈ seen, context.length < o.1.length ∧ ∀ z ∈ o.1, z.toNat < n) :
    countAfter known context y =
      ∑ k ∈ Finset.range n, countAfter known (context ++ [UInt32.ofNat k]) y := by
  -- the counts split up by the symbol right before the context
  have holder : ∀ o ∈ seen, (o.1.getD context.length 0).toNat < n := by
    intro o ho
    obtain ⟨hlen, hall⟩ := hseen o ho
    rw [List.getD_eq_getElem?_getD, List.getElem?_eq_getElem hlen]
    exact hall _ (List.getElem_mem hlen)
  rw [h.count_eq, countP_eq_sum _ _ holder]
  refine Finset.sum_congr rfl fun k hk ↦ ?_
  have hk : UInt32.toNat (.ofNat k) = k :=
    Nat.mod_eq_of_lt (Nat.lt_of_lt_of_le (Finset.mem_range.1 hk) hn)
  rw [h.count_eq]
  refine List.countP_congr fun o ho ↦ ?_
  have hlen := (hseen o ho).1
  rw [decide_eq_true_iff, decide_eq_true_iff, append_singleton_prefix_iff hlen,
    List.getD_eq_getElem?_getD, List.getElem?_eq_getElem hlen, Option.getD_some,
    ← UInt32.toNat_inj (b := .ofNat k), hk]
  exact and_right_comm

namespace Markov

open ContextTree

variable {m m' : Markov} {samples : List Sample} {c : List Symbol}

/-- Whether a context is stored. -/
def Stored (m : Markov) (c : List Symbol) : Prop := (tallyOf? m.contexts c.reverse).isSome

/-- How often a symbol has been counted after a context. -/
def count (m : Markov) (c : List Symbol) (y : Symbol) : Nat := countAfter m.contexts c.reverse y

/-- A sample between boundaries. -/
def padded (m : Markov) (x : Sample) : List Symbol :=
  List.replicate m.order m.boundary ++ (x ++ [m.boundary])

/-- The number of positions of a sample or of its end where a symbol follows a context. The
boundaries before the sample are part of contexts but no such positions themselves. -/
def occurrences (m : Markov) (c : List Symbol) (y : Symbol) (x : Sample) : Nat :=
  (List.range (m.padded x).length).countP fun i ↦
    m.order ≤ i ∧ c <:+ (m.padded x).take i ∧ (m.padded x)[i]? = some y

/-- A context is the longest at the end of a history that is stored. -/
structure LongestStored (m : Markov) (history c : List Symbol) : Prop where
  suffix : c <:+ history
  stored : m.Stored c
  longest : ∀ c', c' <:+ history → m.Stored c' → c'.length ≤ c.length

theorem countP_observations {order : Nat} (hc : c.length ≤ order) (history row : List Symbol) :
    ((observations order history row).countP fun o ↦ c.reverse <+: o.1 ∧ o.2 = y) =
      (List.range row.length).countP fun i ↦
        c <:+ history.reverse ++ row.take i ∧ row[i]? = some y := by
  induction row generalizing history with
  | nil => rfl
  | cons z row ih =>
    have hhere : c.reverse <+: history.take order ↔ c <:+ history.reverse := by
      rw [List.prefix_take_iff, ← List.reverse_prefix, List.reverse_reverse, List.length_reverse]
      exact and_iff_left hc
    rw [observations, List.countP_cons, ih, List.length_cons, List.range_succ_eq_map,
      List.countP_cons, List.countP_map]
    refine congrArg₂ (· + ·) (List.countP_congr fun i _ ↦ ?_) ?_
    · rw [decide_eq_true_iff, Function.comp_apply, decide_eq_true_iff, List.reverse_cons,
        List.append_assoc]
      rfl
    · simp [hhere]

theorem countP_sampleObservations (hc : c.length ≤ m.order) (x : Sample) :
    ((m.sampleObservations x).countP fun o ↦ c.reverse <+: o.1 ∧ o.2 = y) =
      m.occurrences c y x := by
  have hlength : (m.padded x).length = m.order + (x ++ [m.boundary]).length := by simp [padded]
  -- nothing is observed in the padding, and past it the rows are the same
  have hbefore : (List.range m.order).countP (fun i ↦ m.order ≤ i ∧ c <:+ (m.padded x).take i ∧
      (m.padded x)[i]? = some y) = 0 :=
    List.countP_eq_zero.2 fun i hi ↦ by simp [Nat.not_le.2 (List.mem_range.1 hi)]
  rw [sampleObservations, countP_observations hc, occurrences, hlength, List.range_add,
    List.countP_append, List.countP_map, hbefore, Nat.zero_add]
  refine List.countP_congr fun i _ ↦ ?_
  rw [decide_eq_true_iff, Function.comp_apply, decide_eq_true_iff]
  simp [padded, List.take_append, List.getElem?_append_right]

theorem HasCounted.count_eq (hm : m.HasCounted samples) (hc : c.length ≤ m.order) (y : Symbol) :
    m.count c y = ((m.heeded samples).map (m.occurrences c y)).sum := by
  rw [count, Counts.count_eq hm, observationsOf, List.countP_flatMap]
  congr 1
  exact List.map_congr_left fun x _ ↦ countP_sampleObservations hc x

/-- The stored contexts are those after which something has been counted. -/
theorem HasCounted.stored_iff (hm : m.HasCounted samples) :
    m.Stored c ↔ c.length ≤ m.order ∧ ∃ y, 0 < m.count c y := by
  constructor
  · intro hstored
    obtain ⟨o, ho, hpre⟩ := (Counts.isSome_iff hm _).1 hstored
    refine ⟨c.length_reverse ▸ hm.length_le hstored, o.2, ?_⟩
    rw [count, Counts.count_eq hm, List.countP_pos_iff]
    exact ⟨o, ho, by simpa using hpre⟩
  · intro hboth
    obtain ⟨-, y, hpos⟩ := hboth
    obtain ⟨o, ho, hpre, -⟩ := Counts.exists_mem hm hpos
    exact (Counts.isSome_iff hm _).2 ⟨o, ho, hpre⟩

theorem HasCounted.stored_suffix (hm : m.HasCounted samples) {c' : List Symbol} (hsuffix : c' <:+ c)
    (hstored : m.Stored c) : m.Stored c' := by
  obtain ⟨o, ho, hpre⟩ := (Counts.isSome_iff hm _).1 hstored
  exact (Counts.isSome_iff hm _).2 ⟨o, ho, (List.reverse_prefix.2 hsuffix).trans hpre⟩

theorem HasCounted.count_eq_sum (hm : m.HasCounted samples) (hsize : m.alphabetSize < UInt32.size)
    (hc : c.length < m.order) (y : Symbol) :
    m.count c y =
      ∑ x ∈ Finset.range (m.alphabetSize + 1), m.count (UInt32.ofNat x :: c) y := by
  rw [count, Counts.countAfter_eq_sum hm hsize]
  · exact Finset.sum_congr rfl fun x _ ↦ by rw [count, List.reverse_cons]
  · intro o ho
    obtain ⟨hlength, hwithin⟩ := of_mem_observationsOf ho
    refine ⟨by rwa [hlength, List.length_reverse], fun z hz ↦ ?_⟩
    exact Nat.lt_succ_of_le (hwithin z (List.mem_cons_of_mem _ hz))

/-- What is drawn by weight after a history, if there is anything to draw by. -/
def drawnByWeight (m : Markov) (history : List Symbol) (s : WordStream) : Option Symbol :=
  ((Draw.weighted (m.weights history.reverse)).run s).1

theorem HasCounted.of_drawnByWeight (hm : m.HasCounted samples) {s : WordStream}
    (h : m.drawnByWeight history s = some y) :
    ∃ c, m.LongestStored history c ∧ 0 < m.count c y := by
  obtain ⟨context, hpre, hknown, hmax, hpos⟩ := hm.of_weighted h
  obtain ⟨c, rfl⟩ : ∃ c : List Symbol, c.reverse = context := ⟨_, List.reverse_reverse _⟩
  refine ⟨c, ⟨List.reverse_prefix.1 hpre, hknown, fun c' hsuffix hstored ↦ ?_⟩, hpos⟩
  have hle := (hmax c'.reverse (List.reverse_prefix.2 hsuffix) hstored).length_le
  rwa [List.length_reverse, List.length_reverse] at hle

/-- After training, the counts of a net that has been prepared are the numbers of occurrences in the
samples of its alphabet. So the stored contexts are closed under ends, the counts of a context that
is not of full length are the sums of those of the contexts that are longer by one symbol, what is
drawn by weight has been counted after the longest stored context at the end of the history, and
just a net that has been given no sample of its alphabet draws uniformly. -/
theorem counts_eq_occurrences {params : Params} {fresh m : Markov}
    (hinit : Net.markov.init params fresh = (.ok (), m)) (halphabet : m.alphabetSize < 2 ^ 32)
    (calls : List Net.Call) :
    ∃ out m', Net.markov.calls m calls = .ok (out, m') ∧
      let training := (Net.samplesOf calls).filter (·.withinAlphabet m.alphabetSize)
      (∀ c y, c.length ≤ m.order → m'.count c y = (training.map (m.occurrences c y)).sum) ∧
      (∀ c, m'.Stored c ↔ c.length ≤ m.order ∧ ∃ y, 0 < m'.count c y) ∧
      (∀ c c', c' <:+ c → m'.Stored c → m'.Stored c') ∧
      (∀ c y, c.length < m.order → m'.count c y =
        ∑ x ∈ Finset.range (m.alphabetSize + 1), m'.count (UInt32.ofNat x :: c) y) ∧
      (∀ history s y, m'.drawnByWeight history s = some y →
        ((m'.draw history.reverse).run s).1 = y ∧
          ∃ c, m'.LongestStored history c ∧ 0 < m'.count c y) ∧
      (∀ history s, m'.drawnByWeight history s = none ↔ training = []) ∧
      (training = [] → ∀ history, m'.draw history =
        UInt32.ofNat <$> Draw.below Draw.word32 UInt32.size (m.alphabetSize + 1)) := by
  have h : Succeeds (init params) fresh () m := hinit
  obtain ⟨out, contexts, stream, hcalls, hcounted⟩ := (hasCounted_of_init h).calls calls
  refine ⟨out, _, hcalls, fun c y hc ↦ hcounted.count_eq hc y, fun c ↦ hcounted.stored_iff,
    fun c c' ↦ hcounted.stored_suffix, fun c y hc ↦ hcounted.count_eq_sum halphabet hc y,
    fun history s y hdrawn ↦ ⟨draw_of_weighted hdrawn, hcounted.of_drawnByWeight hdrawn⟩,
    fun history s ↦ hcounted.weighted_eq_none_iff history.reverse s, fun hnone history ↦ ?_⟩
  have hweight := (hcounted.weighted_eq_none_iff history m.stream).2 hnone
  have hdraw := draw_eq_below ((Draw.weighted_eq_none_iff _).1 hweight)
  have hboundary : ({ m with contexts, stream } : Markov).boundary.toNat = m.alphabetSize :=
    Nat.mod_eq_of_lt halphabet
  rwa [hboundary] at hdraw

/-- One of two samples is outside the alphabet; the boundary is the number 2. -/
theorem counts_eq_occurrences_pairs :
    ∃ m, Net.markov.init (.ofList [("max_length", .ofNat 4), ("alphabet_size", .ofNat 2),
        ("order", .ofNat 1), ("seed", .ofNat 7)]) Markov.fresh = (.ok (), m) ∧
      ∃ out m', Net.markov.calls m [.train [[0, 1, 0, 1], [5]], .generate, .train [[1]]] =
          .ok (out, m') ∧
        m'.count [0] 1 = 2 ∧ m'.count [2] 1 = 1 ∧ m'.count [1] 2 = 2 ∧
        m'.count [] 1 = m'.count [0] 1 + m'.count [1] 1 + m'.count [2] 1 := by
  have hinit : Net.markov.init (.ofList [("max_length", .ofNat 4), ("alphabet_size", .ofNat 2),
      ("order", .ofNat 1), ("seed", .ofNat 7)]) Markov.fresh =
      (.ok (), (⟨1, 4, 2, none, .ofSeed 7⟩ : Markov)) := by rfl
  obtain ⟨out, m', hcalls, hcount, -, -, hsum, -⟩ := counts_eq_occurrences hinit (by decide)
    [.train [[0, 1, 0, 1], [5]], .generate, .train [[1]]]
  refine ⟨_, hinit, out, m', hcalls, ?_, ?_, ?_, ?_⟩
  · rw [hcount [0] 1 (by decide)]
    decide
  · rw [hcount [2] 1 (by decide)]
    decide
  · rw [hcount [1] 2 (by decide)]
    decide
  · rw [hsum [] 1 (by decide), Finset.sum_range_succ, Finset.sum_range_succ, Finset.sum_range_one]
    rfl

end Markov

end LangBench
