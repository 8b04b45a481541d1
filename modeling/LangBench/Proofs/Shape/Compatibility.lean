import LangBench.Shape
import Mathlib.Data.List.Forall2

/-!
Which shapes of languages go with which shapes of backends.

A shape can be served by another if both have the same number of axes and each axis of the one can be
served by that of the other. This is a partial order. Only a fixed extent can be served by something
else, so both shapes have the same varying axis and measure samples alike.
-/

namespace LangBench

namespace Dim

variable {a b c : Dim}

theorem fits_iff : a.fits b = true ↔ a = b ∨ (∃ n, a = .fixed n) ∧ b = .configurable := by
  unfold fits
  split
  · simp
  · next h =>
    rw [decide_eq_true_eq, iff_self_or]
    rintro ⟨⟨n, rfl⟩, rfl⟩
    exact (h n rfl rfl).elim

theorem fits_refl (a : Dim) : a.fits a = true := fits_iff.2 (.inl rfl)

theorem fits_trans (hab : a.fits b = true) (hbc : b.fits c = true) : a.fits c = true := by
  rcases fits_iff.1 hab with rfl | ⟨hfixed, rfl⟩
  · exact hbc
  · rcases fits_iff.1 hbc with rfl | ⟨⟨n, hn⟩, -⟩
    · exact hab
    · cases hn

theorem fits_antisymm (hab : a.fits b = true) (hba : b.fits a = true) : a = b := by
  rcases fits_iff.1 hab with heq | ⟨⟨n, rfl⟩, rfl⟩
  · exact heq
  · rcases fits_iff.1 hba with heq | ⟨⟨m, hm⟩, -⟩
    · exact heq.symm
    · cases hm

/-- What varies is served only by what varies, and serves nothing else. -/
theorem eq_length_iff_of_fits (h : a.fits b = true) : a = .length ↔ b = .length := by
  rcases fits_iff.1 h with rfl | ⟨⟨n, rfl⟩, rfl⟩
  · exact Iff.rfl
  · exact ⟨nofun, nofun⟩

end Dim

namespace Shape

variable {a b c : Shape} {ds es fs : List Dim}

/-- Axes that can be served by others, one by one. -/
def AxesFit (ds es : List Dim) : Prop := List.Forall₂ (fun d e ↦ d.fits e = true) ds es

theorem AxesFit.refl (ds : List Dim) : AxesFit ds ds := List.forall₂_same.2 fun d _ ↦ d.fits_refl

theorem AxesFit.trans (h : AxesFit ds es) (h' : AxesFit es fs) : AxesFit ds fs := by
  induction h generalizing fs with
  | nil => exact h'
  | cons hd _ ih =>
    cases h' with
    | cons he hrest => exact .cons (Dim.fits_trans hd he) (ih hrest)

theorem AxesFit.antisymm (h : AxesFit ds es) (h' : AxesFit es ds) : ds = es := by
  induction h with
  | nil => rfl
  | cons hd _ ih =>
    cases h' with
    | cons he hrest => rw [Dim.fits_antisymm hd he, ih hrest]

theorem AxesFit.idxOf?_length (h : AxesFit ds es) : ds.idxOf? .length = es.idxOf? .length := by
  induction h with
  | nil => rfl
  | @cons d e ds es hd _ ih =>
    have hlength : (d == .length) = (e == .length) := by
      rw [Bool.eq_iff_iff, beq_iff_eq, beq_iff_eq]
      exact Dim.eq_length_iff_of_fits hd
    rw [List.idxOf?_cons, List.idxOf?_cons, hlength, ih]

theorem checkCompatible_eq_ok_iff : a.checkCompatible b = .ok () ↔ AxesFit a.dims b.dims := by
  have hcheck : a.checkCompatible b = .ok () ↔ a.compatible b = true := by
    unfold checkCompatible
    split <;> simp [*]
  rw [hcheck, compatible, Bool.and_eq_true, decide_eq_true_eq, List.all_eq_true, AxesFit,
    List.forall₂_iff_zip]
  simp only [Prod.forall]
  rfl

/-- Compatibility is a partial order of shapes. Shapes that are compatible have as many axes and the
same varying one, so a sample has the same length in both. -/
theorem compatibility_partial_order (a b c : Shape) :
    a.checkCompatible a = .ok () ∧
    (a.checkCompatible b = .ok () → b.checkCompatible c = .ok () → a.checkCompatible c = .ok ()) ∧
    (a.checkCompatible b = .ok () → b.checkCompatible a = .ok () → a = b) ∧
    (a.checkCompatible b = .ok () →
      a.rank = b.rank ∧ a.lengthAxis = b.lengthAxis ∧
        ∀ x, a.sampleLength x = b.sampleLength x) := by
  simp only [checkCompatible_eq_ok_iff]
  refine ⟨.refl a.dims, .trans, fun h h' ↦ ?_, fun h ↦ ?_⟩
  · have hdims := h.antisymm h'
    cases a
    cases b
    cases hdims
    rfl
  · have haxis : a.lengthAxis = b.lengthAxis := h.idxOf?_length
    refine ⟨h.length_eq, haxis, fun x ↦ ?_⟩
    rw [sampleLength, sampleLength, haxis]

/-- Rows of one column, and a backend that leaves the number of columns open. -/
theorem compatibility_partial_order_open :
    let rows : Shape := { dims := [.fixed 1, .length] }
    let backend : Shape := { dims := [.configurable, .length] }
    rows = sequence ∧ sequence.checkCompatible backend = .ok () ∧ rows.rank = backend.rank ∧
      rows.lengthAxis = backend.lengthAxis ∧
      rows.sampleLength [1, 2] = backend.sampleLength [1, 2] := by
  intro rows backend
  have hto : rows.checkCompatible sequence = .ok () := rfl
  have hfrom : sequence.checkCompatible rows = .ok () := rfl
  have hopen : rows.checkCompatible backend = .ok () := rfl
  obtain ⟨-, htrans, -, -⟩ := compatibility_partial_order sequence rows backend
  obtain ⟨-, -, hantisymm, -⟩ := compatibility_partial_order rows sequence backend
  obtain ⟨-, -, -, hmeasure⟩ := compatibility_partial_order rows backend backend
  obtain ⟨hrank, haxis, hsample⟩ := hmeasure hopen
  exact ⟨hantisymm hto hfrom, htrans hfrom hopen, hrank, haxis, hsample [1, 2]⟩

end Shape

end LangBench
