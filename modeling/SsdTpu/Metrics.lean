import SsdTpu.Config

/-!
# Step metrics

The counters of `MetricsCollector`; the wall-clock fields are left out.
-/

namespace SsdTpu

structure StepMetrics where
  cacheHit : Bool := false
  acceptedTokens : ℕ := 0
  deriving DecidableEq, Repr

structure RunMetrics where
  totalTokens : ℕ := 0
  cacheHits : ℕ := 0
  cacheMisses : ℕ := 0
  steps : List StepMetrics := []
  deriving DecidableEq, Repr

def RunMetrics.recordStep (m : RunMetrics) (step : StepMetrics) : RunMetrics where
  totalTokens := m.totalTokens + step.acceptedTokens
  cacheHits := if step.cacheHit then m.cacheHits + 1 else m.cacheHits
  cacheMisses := if step.cacheHit then m.cacheMisses else m.cacheMisses + 1
  steps := m.steps ++ [step]

@[simp] theorem RunMetrics.recordStep_steps (m : RunMetrics) (step : StepMetrics) :
    (m.recordStep step).steps = m.steps ++ [step] := rfl

@[simp] theorem RunMetrics.recordStep_totalTokens (m : RunMetrics) (step : StepMetrics) :
    (m.recordStep step).totalTokens = m.totalTokens + step.acceptedTokens := rfl

end SsdTpu
