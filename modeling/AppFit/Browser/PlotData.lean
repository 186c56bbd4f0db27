import AppFit.Agent.Report

/- ResultsForm.plotData: the recommendation and the curves drawn from four
   results. A result is the object the agent dumped, JSON.parse being taken to
   read it back; layouts, colours and number formats are left out, and
   Plotly.plot is taken to return on a mounted element. -/
set_option autoImplicit false

namespace AppFit.Browser

open AppFit.Agent

structure Results where
  result0 : JsonData
  result1 : JsonData
  result2 : JsonData
  result3 : JsonData
deriving DecidableEq

structure Recommendation where
  cpuCoresRequired : Nat
  meanCpu : ℚ
  meanMemory : ℚ
deriving DecidableEq

structure Plot where
  recommendation : Recommendation
  cdata : List (Series ℚ × Nat)
  mdata : List (Series Nat × Nat)
  ndata : List (Series Counter)
deriving DecidableEq

def recommend (result : JsonData) : Recommendation := ⟨result.cpuCores, result.meanCpu, result.meanMemory⟩

-- The first run below 70 in the fixed order; none leaves the three variables undefined.
def recommended (results : Results) : Option Recommendation :=
  if results.result0.meanCpu < 70 then some (recommend results.result0)
  else if results.result1.meanCpu < 70 then some (recommend results.result1)
  else if results.result2.meanCpu < 70 then some (recommend results.result2)
  else if results.result3.meanCpu < 70 then some (recommend results.result3)
  else none

-- none is an exception: reading innerHTML of a ref that unmounting removed, or
-- calling toFixed on an undefined mean.
def plotData (mounted : Bool) (results : Results) : Option Plot :=
  if mounted then
    (recommended results).map fun recommendation =>
      { recommendation := recommendation
        cdata := [results.result0, results.result1, results.result2, results.result3].map fun result =>
          (result.cpuData, result.cpuCores)
        mdata := [results.result0, results.result1, results.result2, results.result3].map fun result =>
          (result.memoryData, result.cpuCores)
        ndata := [results.result0.udpPacketsSent, results.result0.udpPacketsRcvd, results.result0.tcpPacketsSent,
          results.result0.tcpPacketsRcvd] }
  else none

def SomeBelow70 (results : Results) : Prop :=
  results.result0.meanCpu < 70 ∨ results.result1.meanCpu < 70 ∨ results.result2.meanCpu < 70 ∨
    results.result3.meanCpu < 70

instance (results : Results) : Decidable (SomeBelow70 results) :=
  inferInstanceAs (Decidable (_ ∨ _ ∨ _ ∨ _))

theorem recommended_isSome (results : Results) : (recommended results).isSome = true ↔ SomeBelow70 results := by
  unfold recommended SomeBelow70
  by_cases first : results.result0.meanCpu < 70
  · simp [first]
  · by_cases second : results.result1.meanCpu < 70
    · simp [first, second]
    · by_cases third : results.result2.meanCpu < 70
      · simp [first, second, third]
      · by_cases fourth : results.result3.meanCpu < 70 <;> simp [first, second, third, fourth]

theorem plot_data_isSome (mounted : Bool) (results : Results) :
    (plotData mounted results).isSome = true ↔ mounted = true ∧ SomeBelow70 results := by
  rw [← recommended_isSome]
  cases mounted <;> simp [plotData]

end AppFit.Browser
