import LangBench.Benchmark.Feed

/-!
The figures of a benchmark.
-/

namespace LangBench

/-- What came out of training and testing a net. -/
structure Stats where
  intake : Intake
  testSamples : Nat
  correct : Nat
  totalLength : Nat
  deriving DecidableEq

namespace Stats

/-- The share of correct candidates, zero if there are none. -/
def accuracy (s : Stats) : Binary64 :=
  if s.testSamples = 0 then .zero else .ofRatio s.correct s.testSamples

def averageLength (s : Stats) : Option Binary64 :=
  if s.testSamples = 0 then none else some (.ofRatio s.totalLength s.testSamples)

/-- The figures of candidates that a language accepts or not. -/
def ofCandidates (intake : Intake) (accepts : Sample → Bool) (candidates : List Sample) : Stats where
  intake := intake
  testSamples := candidates.length
  correct := candidates.countP accepts
  totalLength := candidates.foldr (·.length + ·) 0

/-- The figures as a JSON object, with the time that training took. -/
def toJson (s : Stats) (seconds : Binary64) : Json :=
  .obj [
    ("accuracy", .real s.accuracy),
    ("avg_length", s.averageLength.elim .null .real),
    ("correct_generated", .ofNat s.correct),
    ("max_training_sample_length", .ofNat? s.intake.maxLength),
    ("min_training_sample_length", .ofNat? s.intake.minLength),
    ("test_samples", .ofNat s.testSamples),
    ("training_samples_generated", .ofNat s.intake.generated),
    ("training_samples_skipped", .ofNat s.intake.skipped),
    ("training_samples_used", .ofNat s.intake.used),
    ("training_time_secs", .real seconds)]

end Stats

end LangBench
