import AppFit.Browser.PlotData

/- The run that plotData recommends, for the results of four measured runs whose
   core counts do not decrease. -/
set_option autoImplicit false

namespace AppFit.Browser

open AppFit.Agent

structure MeasuredRun where
  snapshots : List Snapshot
  firstSnapshot : Snapshot
  currentSnapshot : Nat
  cpuCores : Nat
  report : Report
  made : computePerformanceReport snapshots (some firstSnapshot) currentSnapshot cpuCores = some report

def MeasuredRun.meanCpu (run : MeasuredRun) : ℚ := cpuMean run.snapshots

def MeasuredRun.figures (run : MeasuredRun) : Recommendation :=
  ⟨run.cpuCores, run.meanCpu, intMean run.snapshots Snapshot.memory⟩

structure FourRuns where
  run0 : MeasuredRun
  run1 : MeasuredRun
  run2 : MeasuredRun
  run3 : MeasuredRun

def FourRuns.toList (runs : FourRuns) : List MeasuredRun := [runs.run0, runs.run1, runs.run2, runs.run3]

def FourRuns.results (runs : FourRuns) : Results :=
  ⟨runs.run0.report.jsonData, runs.run1.report.jsonData, runs.run2.report.jsonData, runs.run3.report.jsonData⟩

structure LeastBelow70 (runs : List MeasuredRun) (run : MeasuredRun) : Prop where
  member : run ∈ runs
  below : run.meanCpu < 70
  least : ∀ other ∈ runs, other.meanCpu < 70 → run.cpuCores ≤ other.cpuCores

structure RecommendsLeast (runs : List MeasuredRun) (shown : Recommendation) : Prop where
  sufficient : (∃ run ∈ runs, run.meanCpu < 70) → ∃ run, LeastBelow70 runs run ∧ shown = run.figures
  insufficient : (∀ run ∈ runs, 70 ≤ run.meanCpu) → ∀ run ∈ runs, shown ≠ run.figures

theorem recommend_figures (run : MeasuredRun) : recommend run.report.jsonData = run.figures := by
  rw [report_data _ _ _ _ run.report run.made]
  rfl

theorem recommended_first (runs : FourRuns) :
    recommended runs.results = (runs.toList.find? fun run => run.meanCpu < 70).map MeasuredRun.figures := by
  have mean (run : MeasuredRun) : run.report.jsonData.meanCpu = run.meanCpu :=
    congrArg Recommendation.meanCpu (recommend_figures run)
  simp only [recommended, FourRuns.results, FourRuns.toList, mean, recommend_figures, List.find?]
  by_cases first : runs.run0.meanCpu < 70
  · simp [first]
  · by_cases second : runs.run1.meanCpu < 70
    · simp [first, second]
    · by_cases third : runs.run2.meanCpu < 70
      · simp [first, second, third]
      · by_cases fourth : runs.run3.meanCpu < 70 <;> simp [first, second, third, fourth]

-- Everything before the first run below 70 is not below it, and what follows has
-- at least as many cores.
theorem first_below_least (runs : List MeasuredRun) (run : MeasuredRun)
    (ordered : runs.Pairwise fun earlier later => earlier.cpuCores ≤ later.cpuCores)
    (found : runs.find? (fun run => run.meanCpu < 70) = some run) : LeastBelow70 runs run := by
  obtain ⟨below, before, after, split, above⟩ := List.find?_eq_some_iff_append.mp found
  subst split
  refine ⟨by simp, of_decide_eq_true below, ?_⟩
  intro other member otherBelow
  rcases List.mem_append.mp member with early | late
  · have contradiction := above other early
    simp [otherBelow] at contradiction
  · have later := (List.pairwise_cons.mp (List.pairwise_append.mp ordered).2.1).1
    rcases List.mem_cons.mp late with same | behind
    · exact Nat.le_of_eq (congrArg MeasuredRun.cpuCores same.symm)
    · exact later other behind

theorem recommends_least_iff (runs : FourRuns)
    (ordered : runs.toList.Pairwise fun earlier later => earlier.cpuCores ≤ later.cpuCores) :
    (∃ plot, plotData true runs.results = some plot ∧ RecommendsLeast runs.toList plot.recommendation) ↔
      ∃ run ∈ runs.toList, run.meanCpu < 70 := by
  have first := recommended_first runs
  constructor
  · intro plotted
    obtain ⟨plot, drawn, _⟩ := plotted
    rw [plotData, if_pos rfl] at drawn
    obtain ⟨shown, recommends, _⟩ := Option.map_eq_some_iff.mp drawn
    rw [recommends] at first
    obtain ⟨run, found, _⟩ := Option.map_eq_some_iff.mp first.symm
    have least := first_below_least runs.toList run ordered found
    exact ⟨run, least.member, least.below⟩
  · intro some
    obtain ⟨below, member, mean⟩ := some
    have exists_ : (runs.toList.find? fun run => run.meanCpu < 70).isSome = true :=
      List.find?_isSome.mpr ⟨below, member, decide_eq_true mean⟩
    obtain ⟨run, found⟩ := Option.isSome_iff_exists.mp exists_
    have least := first_below_least runs.toList run ordered found
    rw [found, Option.map_some] at first
    refine ⟨_, by rw [plotData, if_pos rfl, first]; rfl, ?_, ?_⟩
    · intro _
      exact ⟨run, least, rfl⟩
    · intro none
      exact absurd mean (not_lt.mpr (none below member))

def loadedSnapshot (cpu : ℚ) : Snapshot := { idleSnapshot ninePackets with cpu := cpu, memory := 4194304 }

theorem loaded_report (cpu : ℚ) (cpuCores : Nat) :
    (computePerformanceReport [loadedSnapshot cpu] (some (loadedSnapshot cpu)) 1 cpuCores).isSome = true := by
  simp [computePerformanceReport, lastSnapshot]

def measuredRun (cpu : ℚ) (cpuCores : Nat) : MeasuredRun where
  snapshots := [loadedSnapshot cpu]
  firstSnapshot := loadedSnapshot cpu
  currentSnapshot := 1
  cpuCores := cpuCores
  report := (computePerformanceReport [loadedSnapshot cpu] (some (loadedSnapshot cpu)) 1 cpuCores).get
    (loaded_report cpu cpuCores)
  made := (Option.some_get _).symm

theorem measured_mean (cpu : ℚ) (cpuCores : Nat) : (measuredRun cpu cpuCores).meanCpu = cpu := by
  simp [MeasuredRun.meanCpu, measuredRun, cpuMean, loadedSnapshot]

def fallingLoad : FourRuns := ⟨measuredRun 90 1, measuredRun 65 2, measuredRun 40 3, measuredRun 30 4⟩
def heavyLoad : FourRuns := ⟨measuredRun 95 1, measuredRun 90 2, measuredRun 85 3, measuredRun 80 4⟩

theorem two_cores_recommended :
    ∃ plot, plotData true fallingLoad.results = some plot ∧ RecommendsLeast fallingLoad.toList plot.recommendation := by
  have ordered : fallingLoad.toList.Pairwise fun earlier later => earlier.cpuCores ≤ later.cpuCores := by
    simp [fallingLoad, FourRuns.toList, measuredRun]
  refine (recommends_least_iff fallingLoad ordered).mpr ⟨measuredRun 65 2, by simp [fallingLoad, FourRuns.toList], ?_⟩
  rw [measured_mean]
  decide

theorem heavy_load_breaks_page :
    (heavyLoad.toList.Pairwise fun earlier later => earlier.cpuCores ≤ later.cpuCores) ∧
      ¬ ∃ plot, plotData true heavyLoad.results = some plot ∧ RecommendsLeast heavyLoad.toList plot.recommendation := by
  refine ⟨by simp [heavyLoad, FourRuns.toList, measuredRun], ?_⟩
  intro plotted
  obtain ⟨plot, drawn, _⟩ := plotted
  have overloaded : heavyLoad.toList.find? (fun run => run.meanCpu < 70) = none := by
    apply List.find?_eq_none.mpr
    intro run member
    simp only [heavyLoad, FourRuns.toList, List.mem_cons, List.not_mem_nil, or_false] at member
    rcases member with rfl | rfl | rfl | rfl <;> rw [measured_mean] <;> decide
  rw [plotData, if_pos rfl, recommended_first, overloaded] at drawn
  cases drawn

end AppFit.Browser
