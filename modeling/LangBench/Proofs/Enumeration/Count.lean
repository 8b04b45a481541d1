import LangBench.Proofs.Enumeration.Steps
import Mathlib

/-!
How many samples an enumeration has: as many as some run hands out, or infinitely many if there is
no limit to that.
-/

namespace LangBench

universe u

variable {σ : Type u} {step : σ → Step σ} {s t : σ} {out : List Sample}

noncomputable def sampleCount (step : σ → Step σ) (s : σ) : ℕ∞ :=
  ⨆ (out : List Sample) (_ : ∃ t, Steps step s out t), (out.length : ℕ∞)

theorem length_le_sampleCount (h : Steps step s out t) : (out.length : ℕ∞) ≤ sampleCount step s :=
  le_iSup₂_of_le out ⟨t, h⟩ le_rfl

theorem sampleCount_eq_of_done (h : Steps step s out t) (ht : step t = .done) :
    sampleCount step s = out.length := by
  apply le_antisymm
  · refine iSup₂_le fun out' hout' ↦ ?_
    obtain ⟨u, hu⟩ := hout'
    obtain ⟨more, rfl, -⟩ := h.prefix_of_done ht hu
    exact Nat.cast_le.2 (by simp)
  · exact length_le_sampleCount h

theorem Lists.sampleCount_eq (h : Lists step s out) : sampleCount step s = out.length := by
  obtain ⟨t, ht, hdone⟩ := steps_of_lists h
  exact sampleCount_eq_of_done ht hdone

end LangBench
