import Mathlib.Algebra.Group.Nat.Defs
import LangBench.Proofs.Net.Counts

/-!
A net whose contexts are as long as its samples can be repeats beginnings of the samples that it was
trained on.

Such a context has to tell all symbols so far: it holds them, and the boundary before them. In the
contexts that lie further on in a long sample there is no boundary. So only what followed the same
symbols at the beginning of a sample can follow them again.
-/

namespace LangBench.Markov

open ContextTree

variable {m m' : Markov} {samples : List Sample} {u v : List Symbol} {x : Symbol}

/-- The context of full length after the beginning of a sample. -/
def contextOf (m : Markov) (u : List Symbol) : List Symbol :=
  (u.reverse ++ List.replicate m.order m.boundary).take m.order

theorem takeWhile_contextOf (hu : m.boundary ∉ u) :
    (m.contextOf u).takeWhile (· != m.boundary) = u.reverse.take m.order := by
  rw [contextOf, List.take_append, List.take_replicate, List.takeWhile_append_of_pos]
  · simp
  · intro y hy
    have hne : y ≠ m.boundary := fun h ↦ hu (h ▸ List.mem_reverse.1 (List.mem_of_mem_take hy))
    simpa using hne

/-- A context that reaches back before the beginning tells all symbols since. -/
theorem contextOf_inj (hu : m.boundary ∉ u) (hv : m.boundary ∉ v) (hlen : u.length < m.order)
    (h : m.contextOf u = m.contextOf v) : u = v := by
  have htake := congrArg (List.takeWhile (· != m.boundary)) h
  rw [takeWhile_contextOf hu, takeWhile_contextOf hv,
    List.take_of_length_le (by simpa using Nat.le_of_lt hlen)] at htake
  have hlength := congrArg List.length htake
  simp only [List.length_reverse, List.length_take] at hlength
  rw [List.take_of_length_le (by simp; omega)] at htake
  exact List.reverse_inj.1 htake

theorem prefix_of_append_eq {before after row : List Symbol} {y z : Symbol}
    (h : row ++ [z] = before ++ y :: after) : before <+: row := by
  rcases List.prefix_concat_iff.1 (h ▸ List.prefix_append before (y :: after)) with heq | hpre
  · simp [heq] at h
  · exact hpre

/-- No sample that the net does not ignore contains the boundary. -/
def BoundaryApart (m : Markov) (samples : List Sample) : Prop :=
  ∀ y ∈ m.heeded samples, m.boundary ∉ y

theorem boundaryApart_of_alphabetSize_lt (h : m.alphabetSize < UInt32.size)
    (samples : List Sample) : m.BoundaryApart samples := by
  intro y hy hmem
  have hlt := Sample.withinAlphabet_iff.1 (mem_heeded_iff.1 hy).2 _ hmem
  rw [boundary, UInt32.toNat_ofNat', Nat.mod_eq_of_lt h] at hlt
  exact Nat.lt_irrefl _ hlt

/-- What has been seen after the context of a beginning are the symbols by which samples with that
beginning go on. -/
theorem BoundaryApart.mem_observationsOf_iff (hb : m.BoundaryApart samples)
    (hlen : u.length < m.order) (hu : ∃ y ∈ m.heeded samples, u <+: y) :
    (m.contextOf u, x) ∈ m.observationsOf samples ↔
      ∃ y ∈ m.heeded samples, u ++ [x] <+: y ++ [m.boundary] := by
  obtain ⟨z, hz, hpre⟩ := hu
  simp only [observationsOf, sampleObservations, List.mem_flatMap, mem_observations_iff]
  refine exists_congr fun y ↦ and_congr_right fun hy ↦ ?_
  constructor
  · intro hex
    obtain ⟨before, after, hrow, hcontext⟩ := hex
    have hbefore := prefix_of_append_eq hrow
    obtain rfl : u = before := contextOf_inj (fun h ↦ hb z hz (hpre.mem h))
      (fun h ↦ hb y hy (hbefore.mem h)) hlen hcontext
    exact ⟨after, by simp [hrow]⟩
  · intro hex
    obtain ⟨after, hrow⟩ := hex
    exact ⟨u, after, by simp [← hrow], rfl⟩

/-- After the beginning of a sample the next symbol is one by which a sample goes on. -/
theorem HasCounted.draw_extends (hm : m.HasCounted samples) (hb : m.BoundaryApart samples)
    (hlen : u.length < m.order) (hu : ∃ y ∈ m.heeded samples, u <+: y) (s : WordStream) :
    ∃ y ∈ m.heeded samples,
      u ++ [((m.draw (u.reverse ++ List.replicate m.order m.boundary)).run s).1] <+:
        y ++ [m.boundary] := by
  rw [← hb.mem_observationsOf_iff hlen hu]
  obtain ⟨y, hy, rest, hrest⟩ := hu
  cases hdrawn : ((Draw.weighted (m.weights
      (u.reverse ++ List.replicate m.order m.boundary))).run s).1 with
  | none =>
    rw [hm.weighted_eq_none_iff] at hdrawn
    simp [hdrawn] at hy
  | some x =>
    rw [draw_of_weighted hdrawn]
    obtain ⟨context, hpre, hknown, hmax, hcount⟩ := hm.of_weighted hdrawn
    obtain ⟨z, after, hafter⟩ : ∃ z after, rest ++ [m.boundary] = z :: after := by
      cases rest <;> exact ⟨_, _, rfl⟩
    have hseen : (m.contextOf u, z) ∈ m.observationsOf samples :=
      (hb.mem_observationsOf_iff hlen ⟨y, hy, rest, hrest⟩).2
        ⟨y, hy, after, by rw [← hrest, List.append_assoc, List.append_assoc, hafter]; rfl⟩
    -- the context of full length is known, so none that is shorter is fallen back on
    have hend := hmax (m.contextOf u) (List.take_prefix _ _)
      ((hm.isSome_iff _).2 ⟨_, hseen, List.prefix_rfl⟩)
    have hfull : m.contextOf u = context :=
      hend.eq_of_length_le (by simpa [contextOf] using hm.length_le hknown)
    obtain ⟨o, ho, hafter, rfl⟩ := hm.exists_mem hcount
    have hlength : o.1.length ≤ context.length := by
      rw [(of_mem_observationsOf ho).1, ← hfull]
      simp [contextOf]
    rwa [hfull, hafter.eq_of_length_le hlength]

/-- Where the boundary may follow, a sample ends; where another symbol may, the sample goes on. -/
theorem BoundaryApart.extends_cases (hb : m.BoundaryApart samples) {y : Sample}
    (hy : y ∈ m.heeded samples) (h : u ++ [x] <+: y ++ [m.boundary]) :
    x = m.boundary ∧ u = y ∨ x ≠ m.boundary ∧ u ++ [x] <+: y := by
  rcases List.prefix_concat_iff.1 h with heq | hpre
  · obtain ⟨rfl, hx⟩ := List.append_inj' heq rfl
    exact .inl ⟨(List.cons.inj hx).1, rfl⟩
  · have hmem : x ∈ y := hpre.mem (by simp)
    exact .inr ⟨fun hx ↦ hb y hy (hx ▸ hmem), hpre⟩

/-- What is begun as a sample is goes on as some sample does, up to the bound. -/
theorem HasCounted.drawSample_eq_take (hm : m.HasCounted samples) (hb : m.BoundaryApart samples)
    {n : Nat} (hlen : u.length + n = m.order) (hu : ∃ y ∈ m.heeded samples, u <+: y)
    (s : WordStream) :
    ∃ y ∈ m.heeded samples,
      u ++ ((m.drawSample (u.reverse ++ List.replicate m.order m.boundary) n).run s).1 =
        y.take m.order := by
  induction n generalizing u s with
  | zero =>
    obtain ⟨y, hy, hpre⟩ := hu
    refine ⟨y, hy, ?_⟩
    rw [← hlen, Nat.add_zero, ← List.prefix_iff_eq_take.1 hpre]
    exact List.append_nil u
  | succ n ih =>
    obtain ⟨y, hy, hext⟩ := hm.draw_extends hb (by omega) hu s
    cases hdraw : (m.draw (u.reverse ++ List.replicate m.order m.boundary)).run s with
    | mk x s' =>
      rw [hdraw] at hext
      rw [drawSample_succ hdraw]
      rcases hb.extends_cases hy hext with ⟨hx, rfl⟩ | ⟨hx, hpre⟩
      · refine ⟨u, hy, ?_⟩
        rw [if_pos hx, List.append_nil, List.take_of_length_le (by omega)]
      · have hnext := ih (by simp; omega) ⟨y, hy, hpre⟩ s'
        rw [if_neg hx]
        simpa using hnext

theorem HasCounted.generate_eq_take (hm : m.HasCounted samples) (hb : m.BoundaryApart samples)
    (hfull : m.order = m.maxLength) (hne : m.heeded samples ≠ []) :
    ∃ y ∈ m.heeded samples, m.generate.1 = y.take m.maxLength := by
  obtain ⟨y, hy⟩ := List.exists_mem_of_ne_nil _ hne
  rw [← hfull]
  have hdrawn := hm.drawSample_eq_take hb (u := []) (n := m.maxLength) (by simp [hfull])
    ⟨y, hy, List.nil_prefix⟩ m.stream
  exact hdrawn

/-- A net whose contexts are as long as its samples can be gives back beginnings of the samples of
its alphabet that it has been trained on, as soon as there is one, whatever else it is asked for and
whatever its seed. If none of them is longer than the bound, these are samples that it has been
trained on. -/
theorem generate_repeats_training {params : Params} {fresh m : Markov} {length size : Nat}
    (hlength : params.optionalNat Params.maxLength = .ok (some length))
    (horder : params.nat orderSpec.name = .ok length)
    (hsize : params.nat Params.alphabetSize = .ok size) (halphabet : size < 2 ^ 32)
    (hinit : Net.markov.init params fresh = (.ok (), m)) (calls : List Net.Call) :
    ∃ out m', Net.markov.calls m calls = .ok (out, m') ∧
      let training := (Net.samplesOf calls).filter (·.withinAlphabet size)
      (training ≠ [] → ∃ x m'', Net.markov.generate m' = .ok (x, m'') ∧
        (∃ y ∈ training, x = y.take length) ∧
        ((∀ y ∈ training, y.length ≤ length) → x ∈ training)) := by
  have h : Succeeds (init params) fresh () m := hinit
  obtain rfl := Option.some.inj (Except.ok.inj (hlength.symm.trans (maxLength_of_init h)))
  obtain rfl := Except.ok.inj (hsize.symm.trans (alphabetSize_of_init h))
  have hfull := Except.ok.inj (horder.symm.trans (order_of_init h))
  obtain ⟨out, contexts, stream, hcalls, hcounted⟩ := (hasCounted_of_init h).calls calls
  refine ⟨out, _, hcalls, fun hne ↦ ?_⟩
  obtain ⟨y, hy, heq⟩ := hcounted.generate_eq_take
    (boundaryApart_of_alphabetSize_lt halphabet _) hfull.symm hne
  refine ⟨(Markov.generate { m with contexts, stream }).1, _, rfl, ⟨y, hy, heq⟩, fun hshort ↦ ?_⟩
  rw [heq, List.take_of_length_le (hshort y hy)]
  exact hy

/-- Of three training samples one is longer than the bound and one is outside the alphabet. -/
theorem generate_repeats_training_short :
    ∃ m, Net.markov.init (.ofList [("max_length", .ofNat 2), ("alphabet_size", .ofNat 2),
        ("order", .ofNat 2), ("seed", .ofNat 7)]) Markov.fresh = (.ok (), m) ∧
      ∃ out m' x m'', Net.markov.calls m [.train [[0, 1, 1], [5]], .generate, .train [[1]]] =
          .ok (out, m') ∧
        Net.markov.generate m' = .ok (x, m'') ∧ (x = [0, 1] ∨ x = [1]) := by
  have hinit : Net.markov.init (.ofList [("max_length", .ofNat 2), ("alphabet_size", .ofNat 2),
      ("order", .ofNat 2), ("seed", .ofNat 7)]) Markov.fresh =
      (.ok (), (⟨2, 2, 2, none, .ofSeed 7⟩ : Markov)) := by rfl
  obtain ⟨out, m', hcalls, hrepeats⟩ := generate_repeats_training (maxLength_of_init hinit)
    (order_of_init hinit) (alphabetSize_of_init hinit) (by decide) hinit
    [.train [[0, 1, 1], [5]], .generate, .train [[1]]]
  obtain ⟨x, m'', hx, ⟨y, hy, rfl⟩, -⟩ := hrepeats (by decide)
  have hy : y ∈ [[0, 1, 1], [1]] := hy
  refine ⟨_, hinit, out, m', _, m'', hcalls, hx, ?_⟩
  rcases List.mem_pair.1 hy with rfl | rfl
  · exact .inl rfl
  · exact .inr rfl

end LangBench.Markov
