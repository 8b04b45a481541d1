import LangBench.Enumeration.Step
import LangBench.Shape

/-!
The feed of training samples.

A feed pulls a limited number of samples from a source, passes on those that are not too long, and
keeps books: every sample that was pulled has been either used or skipped.
-/

namespace LangBench

/-- The books of a feed. -/
structure Intake where
  generated : Nat
  skipped : Nat
  used : Nat
  minLength : Option Nat
  maxLength : Option Nat
  deriving DecidableEq

namespace Intake

def empty : Intake := ⟨0, 0, 0, none, none⟩

def skip (i : Intake) : Intake := { i with generated := i.generated + 1, skipped := i.skipped + 1 }

def use (i : Intake) (length : Nat) : Intake where
  generated := i.generated + 1
  skipped := i.skipped
  used := i.used + 1
  minLength := some (i.minLength.elim length (min length))
  maxLength := some (i.maxLength.elim length (max length))

end Intake

universe u

/-- A feed from a source with states `σ`. -/
structure Feed (σ : Type u) where
  source : σ
  shape : Shape
  /-- No longer samples are passed on. -/
  maxLength : Option Nat
  /-- How many samples may still be pulled. -/
  remaining : Nat
  intake : Intake

/-- The answer of a feed to the request for a sample. -/
inductive Supply (σ : Type u) where
  | sample (x : Sample) (next : Feed σ)
  | ended (last : Feed σ)
  | stalled

namespace Feed

variable {σ : Type u}

/-- The length of a sample; without an axis that varies it is 0. -/
def lengthOf (shape : Shape) (x : Sample) : Nat := (shape.sampleLength x).getD 0

def next (pull : σ → Pull σ) (f : Feed σ) : Supply σ :=
  match _h : f.remaining with
  | 0 => .ended f
  | remaining + 1 =>
    match pull f.source with
    | .exhausted => .ended f
    | .stalled => .stalled
    | .sample x source =>
      let length := lengthOf f.shape x
      if f.maxLength.any (· < length) then
        next pull { f with source, remaining, intake := f.intake.skip }
      else .sample x { f with source, remaining, intake := f.intake.use length }
termination_by f.remaining

theorem next_remaining_lt {pull : σ → Pull σ} {f g : Feed σ} {x : Sample}
    (h : f.next pull = .sample x g) : g.remaining < f.remaining := by
  fun_induction next pull f with
  | case1 => simp at h
  | case2 => simp at h
  | case3 => simp at h
  | case4 f n hn x' source _ _ _ ih =>
    have := ih h
    simp only at this
    omega
  | case5 f n hn x' source =>
    cases h
    simp only
    omega

end Feed

end LangBench
