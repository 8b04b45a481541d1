import LangBench.Sample

/-!
Enumerations that advance in small steps.

A step hands out a sample, does some work without one, or finds that nothing is left. `pull` takes
steps until there is an answer, `take` pulls several samples. The number of steps is bounded by a
budget, since an enumeration may work forever without another sample.
-/

namespace LangBench

universe u

/-- The outcome of one step of an enumeration with states `σ`. -/
inductive Step (σ : Type u) where
  | emit (sample : Sample) (next : σ)
  | skip (next : σ)
  | done

/-- The answer of an enumeration to the request for a sample. -/
inductive Pull (σ : Type u) where
  | sample (sample : Sample) (next : σ)
  | exhausted
  | stalled

def pull {σ : Type u} (step : σ → Step σ) : Nat → σ → Pull σ
  | 0, _ => .stalled
  | budget + 1, s =>
    match step s with
    | .emit x next => .sample x next
    | .skip next => pull step budget next
    | .done => .exhausted

/-- The first samples of an enumeration. -/
structure Taken where
  samples : List Sample
  exhausted : Bool
  /-- Whether the budget was used up. -/
  stalled : Bool

/-- Pull at most `n` samples, each with the same budget. -/
def take {σ : Type u} (step : σ → Step σ) (budget : Nat) (n : Nat) (s : σ) : Taken :=
  go n s []
where
  /-- Add the remaining samples to those already pulled, held in reverse. -/
  go : Nat → σ → List Sample → Taken
    | 0, _, pulled => ⟨pulled.reverse, false, false⟩
    | n + 1, s, pulled =>
      match pull step budget s with
      | .sample x next => go n next (x :: pulled)
      | .exhausted => ⟨pulled.reverse, true, false⟩
      | .stalled => ⟨pulled.reverse, false, true⟩

end LangBench
