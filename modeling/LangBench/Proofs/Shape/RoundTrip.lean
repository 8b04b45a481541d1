import LangBench.Shape
import LangBench.Proofs.Json.RoundTrip
import LangBench.Proofs.Outcome
import Mathlib

/-!
Reading shapes back from their JSON texts.

An axis may be written in more than one way; `Dim.Represents` says which values stand for it. The
texts of a shape are those of the arrays of such values, and an array of such values has a shape just
if at most one of them stands for an axis that varies.
-/

namespace LangBench

theorem Json.asNat?_eq_some_iff {v : Json} {n : Nat} : v.asNat? = some n ↔ v = .ofNat n := by
  unfold asNat?
  split
  · next m =>
    rw [ofNat, int.injEq]
    cases m with
    | ofNat m => exact Option.some_inj.trans Int.ofNat_inj.symm
    | negSucc m => exact ⟨nofun, nofun⟩
  · next h => exact ⟨nofun, fun heq ↦ absurd heq (h n)⟩

namespace Dim

variable {d : Dim} {v : Json}

/-- The values that stand for an axis. An axis that has no number is a word, or the one key of an
object with the value null. -/
inductive Represents : Json → Dim → Prop
  | fixed (n : UInt64) : Represents (.obj [("fixed", .ofNat n.toNat)]) (.fixed n)
  | configurable : Represents (.str "configurable") .configurable
  | configurableKey : Represents (.obj [("configurable", .null)]) .configurable
  | length : Represents (.str "length") .length
  | lengthKey : Represents (.obj [("length", .null)]) .length

/-- An axis is read from the values that stand for it, and from nothing else. -/
theorem ofJson?_eq_some_iff : ofJson? v = some d ↔ Represents v d := by
  constructor
  · intro h
    unfold ofJson? at h
    split at h
    · cases h
      exact .configurable
    · cases h
      exact .length
    · cases h
      exact .configurableKey
    · cases h
      exact .lengthKey
    · obtain ⟨n, hn, h⟩ := Option.bind_eq_some_iff.1 h
      split at h
      · next hlt =>
        cases h
        obtain rfl := Json.asNat?_eq_some_iff.1 hn
        have hfixed := Represents.fixed (.ofNat n)
        rwa [UInt64.toNat_ofNat_of_lt' hlt] at hfixed
      · cases h
    · cases h
  · intro h
    cases h with
    | fixed n => simp [ofJson?, Json.asNat?_eq_some_iff.2 rfl, n.toNat_lt_size]
    | _ => rfl

theorem represents_toJson (d : Dim) : Represents d.toJson d := by
  cases d with
  | fixed n => exact .fixed n
  | configurable => exact .configurable
  | length => exact .length

theorem exact_toJson (depth : Nat) (d : Dim) : Json.Exact (depth + 1) d.toJson := by
  cases d with
  | fixed n =>
    have hlow : -(UInt64.size / 2 : Nat) ≤ (n.toNat : Int) := by omega
    refine .obj (List.pairwise_singleton _ _) fun f hf ↦ ?_
    obtain rfl := List.mem_singleton.1 hf
    exact .int hlow (Int.ofNat_lt.2 n.toNat_lt_size)
  | configurable => exact .str _
  | length => exact .str _

end Dim

namespace Shape

variable {dims : List Dim} {items : List Json} {text : String} {s : Shape}

/-- Axes make a shape that has just these axes, if they make one. -/
theorem toOption_ofDims_eq_some_iff : (ofDims dims).toOption = some s ↔ s.dims = dims := by
  unfold ofDims
  split
  · simp only [Except.toOption, Option.some.injEq]
    constructor
    · rintro rfl
      rfl
    · rintro rfl
      rfl
  · next h =>
    refine ⟨nofun, ?_⟩
    rintro rfl
    exact absurd s.count_length_le h

theorem toOption_ofDims_eq_none_iff : (ofDims dims).toOption = none ↔ 1 < dims.count .length := by
  unfold ofDims
  split
  · next h => exact ⟨nofun, fun hlt ↦ absurd h (Nat.not_le_of_lt hlt)⟩
  · next h => exact iff_of_true rfl (Nat.lt_of_not_le h)

theorem ofJson?_of_represents (h : List.Forall₂ Dim.Represents items dims) :
    ofJson? (.arr items) = (ofDims dims).toOption := by
  have hdims : items.mapM Dim.ofJson? = some dims :=
    mapM_eq_some_iff.2 (h.imp fun _ _ ↦ Dim.ofJson?_eq_some_iff.2)
  rw [ofJson?, hdims, Option.bind_some]

theorem exists_represents {v : Json} (h : ofJson? v = some s) :
    ∃ items, v = .arr items ∧ List.Forall₂ Dim.Represents items s.dims := by
  cases v with
  | arr items =>
    obtain ⟨dims, hdims, hs⟩ := Option.bind_eq_some_iff.1 h
    obtain rfl := toOption_ofDims_eq_some_iff.1 hs
    refine ⟨items, rfl, ?_⟩
    exact (mapM_eq_some_iff.1 hdims).imp fun _ _ ↦ Dim.ofJson?_eq_some_iff.1
  | _ => cases h

theorem ofText?_toText (s : Shape) : ofText? s.toText = some s := by
  have hexact : Json.Exact Json.Assembly.maxDepth s.toJson := by
    refine .arr fun v hv ↦ ?_
    obtain ⟨d, -, rfl⟩ := List.mem_map.1 hv
    exact d.exact_toJson _
  have hdims : List.Forall₂ Dim.Represents (s.dims.map Dim.toJson) s.dims := by
    rw [List.forall₂_map_left_iff, List.forall₂_same]
    exact fun d _ ↦ d.represents_toJson
  rw [ofText?, toText, hexact.parseRaw?_eq, Option.bind_some, toJson, ofJson?_of_represents hdims]
  exact toOption_ofDims_eq_some_iff.2 rfl

/-- A shape is read back from its text. Whatever text a shape is read from is an array of values that
stand for its axes; at most one of them varies, and the text of the shape gives it again. An array of
values that stand for axes is refused just if more than one of these varies. -/
theorem texts_read_back :
    (∀ s : Shape, ofText? s.toText = some s) ∧
    (∀ text s, ofText? text = some s →
      (∃ items, Json.parseRaw? text = some (.arr items) ∧
        List.Forall₂ Dim.Represents items s.dims) ∧
      s.dims.count .length ≤ 1 ∧ ofText? s.toText = some s) ∧
    ∀ text items dims, Json.parseRaw? text = some (.arr items) →
      List.Forall₂ Dim.Represents items dims →
      (ofText? text = none ↔ 1 < dims.count .length) ∧
        ∀ s, ofText? text = some s ↔ s.dims = dims := by
  refine ⟨ofText?_toText, fun text s h ↦ ⟨?_, s.count_length_le, ofText?_toText s⟩,
    fun text items dims htext h ↦ ?_⟩
  · obtain ⟨v, hv, hs⟩ := Option.bind_eq_some_iff.1 h
    obtain ⟨items, rfl, hitems⟩ := exists_represents hs
    exact ⟨items, hv, hitems⟩
  · rw [ofText?, htext, Option.bind_some, ofJson?_of_represents h]
    exact ⟨toOption_ofDims_eq_none_iff, fun s ↦ toOption_ofDims_eq_some_iff⟩

/-- The greatest extent there is, after a varying axis. Two of these are refused, in whatever ways
they are written. -/
theorem texts_read_back_greatest :
    let s : Shape := { dims := [.length, .fixed 18446744073709551615] }
    ofText? " [ \x7b\"length\" : null\x7d, \x7b\"fixed\" : 18446744073709551615\x7d ]" = some s ∧
      ofText? s.toText = some s ∧ ofText? "[\x7b\"length\":null\x7d,\"length\"]" = none := by
  intro s
  obtain ⟨-, hagain, harray⟩ := texts_read_back
  have htwo : Json.parseRaw? "[\x7b\"length\":null\x7d,\"length\"]" =
      some (.arr [.obj [("length", .null)], .str "length"]) := by cbv
  have hone : Json.parseRaw?
      " [ \x7b\"length\" : null\x7d, \x7b\"fixed\" : 18446744073709551615\x7d ]" =
      some (.arr [.obj [("length", .null)], .obj [("fixed", .int 18446744073709551615)]]) := by cbv
  have hitems : List.Forall₂ Dim.Represents
      [.obj [("length", .null)], .obj [("fixed", .int 18446744073709551615)]] s.dims :=
    .cons .lengthKey (.cons (.fixed 18446744073709551615) .nil)
  have hread := (harray _ _ s.dims hone hitems).2 s
  refine ⟨hread.2 rfl, (hagain _ s (hread.2 rfl)).2.2, ?_⟩
  exact (harray _ _ [.length, .length] htwo (.cons .lengthKey (.cons .length .nil))).1.2 (by decide)

end Shape

end LangBench
