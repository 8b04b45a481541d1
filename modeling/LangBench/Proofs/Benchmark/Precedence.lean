import LangBench.Proofs.Benchmark.Pairs
import LangBench.Proofs.Dict

/-!
Which layer decides on a parameter.

Of layers that are merged the last one with a key decides, and merging them in two halves first makes
no difference. A net is prepared with five layers so merged, in two steps, and with the alphabet size
and the shape of the language above them.
-/

namespace LangBench

namespace Params

variable {layers : List Params} {key : String} {value : Json}

/-- The last layer that has a key binds it to the value, be it null. -/
def LastValue (layers : List Params) (key : String) (value : Json) : Prop :=
  ∃ below layer above, layers = below ++ layer :: above ∧ layer.get? key = some value ∧
    ∀ other ∈ above, other.contains key = false

theorem contains_eq_false_iff {ps : Params} : ps.contains key = false ↔ ps.get? key = none := by
  rw [Dict.contains, Option.isSome_eq_false_iff, Option.isNone_iff_eq_none]

theorem get?_foldl_extend (layers : List Params) (ps : Params) (key : String) :
    (layers.foldl Dict.extend ps).get? key =
      (layers.reverse.findSome? (·.get? key)).or (ps.get? key) := by
  induction layers generalizing ps with
  | nil => rfl
  | cons layer layers ih =>
    rw [List.foldl_cons, ih, Dict.get?_extend, List.reverse_cons, List.findSome?_append,
      List.findSome?_singleton, Option.or_assoc]

theorem get?_layered (layers : List Params) (key : String) :
    (layered layers).get? key = layers.reverse.findSome? (·.get? key) :=
  (get?_foldl_extend layers .empty key).trans Option.or_none

example : (layered [.globalDefaults, .ofList [(epochs, .ofNat 3)], .ofList [(epochs, .null)]]).get?
    epochs = some .null := by rfl

theorem get?_layered_eq_some_iff :
    (layered layers).get? key = some value ↔ LastValue layers key value := by
  rw [get?_layered, List.findSome?_eq_some_iff, LastValue]
  simp only [contains_eq_false_iff]
  constructor
  · rintro ⟨above, layer, below, heq, hvalue, hnone⟩
    refine ⟨below.reverse, layer, above.reverse, ?_, hvalue, by simpa using hnone⟩
    simpa using congrArg List.reverse heq
  · rintro ⟨below, layer, above, rfl, hvalue, hnone⟩
    exact ⟨above.reverse, layer, below.reverse, by simp, hvalue, by simpa using hnone⟩

theorem contains_layered_eq_false_iff :
    (layered layers).contains key = false ↔ ∀ layer ∈ layers, layer.contains key = false := by
  simp [contains_eq_false_iff, get?_layered]

/-- Layers may be merged among themselves before others are put above them. -/
theorem get?_layered_cons_layered (layers above : List Params) (key : String) :
    (layered (layered layers :: above)).get? key = (layered (layers ++ above)).get? key := by
  rw [get?_layered, get?_layered, List.reverse_cons, List.reverse_append, List.findSome?_append,
    List.findSome?_append, List.findSome?_singleton, get?_layered]

theorem layered_append (xs ys : List Params) :
    layered (xs ++ ys) = layered [layered xs, layered ys] := by
  refine Dict.ext_get? fun key ↦ ?_
  rw [get?_layered_cons_layered, get?_layered, get?_layered, List.reverse_append,
    List.reverse_append, List.findSome?_append, List.findSome?_append, List.reverse_singleton,
    List.findSome?_singleton, get?_layered]

end Params

/-- The layers that count for a net, the highest first. -/
theorem Net.get?_mergedParams (n : Net) {r : Registry} {preset : String} {langOverrides : Params}
    {p : Prepared} (hp : r.prepare preset langOverrides = .ok p) (netOverrides : Params) (key : String) :
    (n.mergedParams p netOverrides).get? key =
      if key = Params.shape then some p.lang.shape.toJson
      else if key = Params.alphabetSize then some (.ofNat p.lang.alphabetSize)
      else [netOverrides, .ofSpecs n.params, langOverrides, .ofSpecs p.lang.params,
        .globalDefaults].findSome? (·.get? key) := by
  obtain ⟨l, -, hp⟩ := Registry.prepare_eq_ok.1 hp
  obtain ⟨_, -, -, -, rfl⟩ := Language.prepare_eq_ok.1 hp
  rw [mergedParams, Dict.get?_insert, Dict.get?_insert, Language.mergedParams,
    Params.get?_layered_cons_layered, Params.get?_layered]
  rfl

namespace Benchmark

variable {b : Benchmark} {lang net : String} {i j : Instance} {n : Net} {p : Prepared}
  {ps : Params}

/-- A pair gets as far as its net: its instances and their presets exist, and the language is
prepared. -/
structure Reaches (b : Benchmark) (lang net : String) (i j : Instance) (n : Net) (p : Prepared) :
    Prop where
  get_lang : b.config.langs.get? lang = some i
  get_net : b.config.nets.get? net = some j
  prepare_eq : b.registry.prepare i.preset i.params = .ok p
  get_model : b.registry.nets.get? j.preset = some n

theorem Reaches.runPair_eq (h : b.Reaches lang net i j n p) :
    b.runPair lang net = n.prepare (n.mergedParams p j.params) >>= n.evaluate p := by
  rw [Benchmark.runPair_eq h.get_lang h.get_net, Registry.runInstances, h.prepare_eq]
  simp only [h.get_model]
  rfl

theorem leaves_evaluate (s : n.State) : Leaves Trace.netParams (n.evaluate p s) := by
  refine .bind (leaves_liftExcept _) fun maxLength ↦ .bind (leaves_liftExcept _) fun maxSamples ↦
    .bind (leaves_liftExcept _) fun testSamples ↦ .bind (leaves_liftExcept _) fun trained ↦
      .bind (leaves_modify fun _ ↦ rfl) fun _ ↦ .bind (leaves_liftExcept _) ?_
  rintro ⟨candidates, last⟩
  exact .bind (leaves_modify fun _ ↦ rfl) fun _ ↦ leaves_pure

/-- The trace keeps what the net is prepared with, even if it cannot be prepared with that. -/
theorem Reaches.netParams_eq (h : b.Reaches lang net i j n p) :
    (b.report lang net).trace.netParams = some (n.mergedParams p j.params) := by
  have hprepare (ps : Params) : (((n.prepare ps).run.run .empty).run.2).netParams = some ps :=
    view_bind Trace.netParams rfl fun _ ↦ (leaves_liftExcept _).bind fun _ ↦ leaves_pure
  have hrun : (b.report lang net).trace = ((b.runPair lang net).run.run .empty).run.2 := rfl
  rw [hrun, h.runPair_eq]
  exact view_bind Trace.netParams (hprepare _) leaves_evaluate

theorem exists_reaches (h : (b.report lang net).trace.netParams ≠ none) :
    ∃ i j n p, b.Reaches lang net i j n p := by
  have hrun : (b.report lang net).trace = ((b.runPair lang net).run.run .empty).run.2 := rfl
  rw [hrun, runPair] at h
  obtain ⟨i, hi, h⟩ := exists_ok_of_view Trace.netParams h
  obtain ⟨j, hj, h⟩ := exists_ok_of_view Trace.netParams h
  rw [Registry.runInstances] at h
  obtain ⟨p, hp, h⟩ := exists_ok_of_view Trace.netParams h
  rw [findInstance_eq_ok] at hi hj
  cases hn : b.registry.nets.get? j.preset with
  | none =>
    rw [hn] at h
    exact absurd rfl h
  | some n => exact ⟨i, j, n, p, hi, hj, hp, hn⟩

/-- Of several layers of parameters the last one with a key decides on it, also if it binds null, and
layers may be merged in two halves. What a net is prepared with, if a pair gets as far as this, are
five layers so merged, but for the alphabet size and the shape, which are those of its language
whatever the layers say. -/
theorem params_by_precedence :
    (∀ layers key, (∀ value,
        (Params.layered layers).get? key = some value ↔ Params.LastValue layers key value) ∧
      ((Params.layered layers).contains key = false ↔
        ∀ layer ∈ layers, layer.contains key = false)) ∧
    (∀ xs ys, Params.layered (xs ++ ys) = Params.layered [Params.layered xs, Params.layered ys]) ∧
    ∀ (b : Benchmark) lang net ps, (b.report lang net).trace.netParams = some ps ↔
      ∃ i j n p, b.Reaches lang net i j n p ∧
        b.runPair lang net = n.prepare ps >>= n.evaluate p ∧
        ∀ key, ps.get? key =
          if key = Params.shape then some p.lang.shape.toJson
          else if key = Params.alphabetSize then some (.ofNat p.lang.alphabetSize)
          else [j.params, .ofSpecs n.params, i.params, .ofSpecs p.lang.params,
            .globalDefaults].findSome? (·.get? key) := by
  refine ⟨fun layers key ↦ ⟨fun value ↦ Params.get?_layered_eq_some_iff,
    Params.contains_layered_eq_false_iff⟩, Params.layered_append, fun b lang net ps ↦ ?_⟩
  constructor
  · intro h
    obtain ⟨i, j, n, p, hreaches⟩ := exists_reaches (by rw [h]; exact Option.some_ne_none ps)
    obtain rfl := Option.some.inj (hreaches.netParams_eq.symm.trans h)
    exact ⟨i, j, n, p, hreaches, hreaches.runPair_eq, n.get?_mergedParams hreaches.prepare_eq _⟩
  · rintro ⟨i, j, n, p, hreaches, -, hget⟩
    have heq : ps = n.mergedParams p j.params := Dict.ext_get? fun key ↦
      (hget key).trans (n.get?_mergedParams hreaches.prepare_eq _ key).symm
    rw [hreaches.netParams_eq, heq]

end Benchmark

end LangBench
