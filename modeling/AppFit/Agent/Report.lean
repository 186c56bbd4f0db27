import AppFit.Agent.Snapshots

set_option autoImplicit false

namespace AppFit.Agent

-- A packet counter as awk prints the first field of a netstat line. The text is
-- kept because the report's series repeat it; int() reads it for the totals.
structure Counter where
  text : List Char
  nonempty : text ≠ []
  decimal : ∀ digit ∈ text, digit.isDigit
deriving DecidableEq

def Counter.int (counter : Counter) : Int := Nat.ofDigitChars 10 counter.text 0

structure Snapshot where
  cpu : ℚ
  systemCpu : ℚ
  memory : Nat
  systemMemory : Nat
  files : Nat
  udpPacketsSent : Counter
  udpPacketsRcvd : Counter
  tcpPacketsSent : Counter
  tcpPacketsRcvd : Counter
deriving DecidableEq

structure Series (β : Type) where
  x : List Nat
  y : List β
deriving DecidableEq

structure JsonData where
  cpuData : Series ℚ
  meanCpu : ℚ
  cpuCores : Nat
  memoryData : Series Nat
  meanMemory : ℚ
  udpPacketsSent : Series Counter
  udpPacketsRcvd : Series Counter
  tcpPacketsSent : Series Counter
  tcpPacketsRcvd : Series Counter
deriving DecidableEq

structure Report where
  meanFiles : ℚ
  udpPacketSent : Int
  udpPacketRcvd : Int
  tcpPacketSent : Int
  tcpPacketRcvd : Int
  jsonData : JsonData
deriving DecidableEq

def lastSnapshot {α : Type} (snapshots : List α) (currentSnapshot : Nat) : Option α :=
  snapshots[currentSnapshot % snapshots.length]?

def series {β : Type} (snapshots : List Snapshot) (field : Snapshot → β) : Series β :=
  ⟨List.range snapshots.length, snapshots.map field⟩

-- Python 2 divides the integer sums with floor before float() is applied; the
-- CPU values are floats, taken as exact rationals.
def intMean (snapshots : List Snapshot) (field : Snapshot → Nat) : ℚ :=
  ((snapshots.map field).sum / snapshots.length : Nat)

def cpuMean (snapshots : List Snapshot) : ℚ := (snapshots.map Snapshot.cpu).sum / snapshots.length

-- none stands for the exceptions: a division by the length of an empty buffer,
-- a missing slot, a firstSnapshot that is still None.
def computePerformanceReport (snapshots : List Snapshot) (firstSnapshot : Option Snapshot)
    (currentSnapshot cpuCores : Nat) : Option Report :=
  if snapshots.isEmpty then none
  else
    (lastSnapshot snapshots currentSnapshot).bind fun last =>
      firstSnapshot.map fun first =>
        { meanFiles := intMean snapshots Snapshot.files
          udpPacketSent := last.udpPacketsSent.int - first.udpPacketsSent.int
          udpPacketRcvd := last.udpPacketsRcvd.int - first.udpPacketsRcvd.int
          tcpPacketSent := last.tcpPacketsSent.int - first.tcpPacketsSent.int
          tcpPacketRcvd := last.tcpPacketsRcvd.int - first.tcpPacketsRcvd.int
          jsonData :=
            { cpuData := series snapshots Snapshot.cpu
              meanCpu := cpuMean snapshots
              cpuCores := cpuCores
              memoryData := series snapshots Snapshot.memory
              meanMemory := intMean snapshots Snapshot.memory
              udpPacketsSent := series snapshots Snapshot.udpPacketsSent
              udpPacketsRcvd := series snapshots Snapshot.udpPacketsRcvd
              tcpPacketsSent := series snapshots Snapshot.tcpPacketsSent
              tcpPacketsRcvd := series snapshots Snapshot.tcpPacketsRcvd } }

-- The part of ProcessMessage after the two programs are started: maxSnapshots is
-- the number of samples, cpuCores the length of the affinity list.
def processMessage (snapshotSize cpuCores : Nat) (samples : List Snapshot) : Option Report :=
  (sampleLoop snapshotSize samples).bind fun sampler =>
    computePerformanceReport sampler.snapshots sampler.firstSnapshot sampler.currentSnapshot cpuCores

-- The reader's index is taken modulo the buffer length, which is the sample
-- count itself until the buffer wraps.
theorem last_snapshot_filling {α : Type} (snapshotSize : Nat) (samples : List α) (sampler : Sampler α)
    (sampled : Sampled snapshotSize samples sampler) (some : samples ≠ [])
    (filling : samples.length ≤ snapshotSize) :
    lastSnapshot sampler.snapshots sampler.currentSnapshot = samples.head? := by
  have taken := List.length_pos_of_ne_nil some
  have size : sampler.snapshots.length = samples.length := by rw [sampled.size, Nat.min_eq_left filling]
  rw [lastSnapshot, sampled.counted, size, Nat.mod_self, sampled.slots 0 (by omega),
    slot_sample_filling snapshotSize samples.length 0 filling, List.head?_eq_getElem?]

theorem last_snapshot_wrapped {α : Type} (snapshotSize : Nat) (positive : 1 ≤ snapshotSize) (samples : List α)
    (sampler : Sampler α) (sampled : Sampled snapshotSize samples sampler)
    (wrapped : snapshotSize < samples.length) :
    lastSnapshot sampler.snapshots sampler.currentSnapshot = samples.getLast? := by
  have size : sampler.snapshots.length = snapshotSize := by
    rw [sampled.size, Nat.min_eq_right (Nat.le_of_lt wrapped)]
  have slot := Nat.mod_lt samples.length (show 0 < snapshotSize by omega)
  rw [lastSnapshot, sampled.counted, size, sampled.slots _ (by omega),
    slot_sample_newest snapshotSize samples.length wrapped, List.getLast?_eq_getElem?]

def SpansRun (samples : List Snapshot) (sampler : Sampler Snapshot) (report : Report) : Prop :=
  ∃ first last, samples.head? = some first ∧ samples.getLast? = some last ∧
    sampler.firstSnapshot = some first ∧
    lastSnapshot sampler.snapshots sampler.currentSnapshot = some last ∧
    report.udpPacketSent = last.udpPacketsSent.int - first.udpPacketsSent.int ∧
    report.udpPacketRcvd = last.udpPacketsRcvd.int - first.udpPacketsRcvd.int ∧
    report.tcpPacketSent = last.tcpPacketsSent.int - first.tcpPacketsSent.int ∧
    report.tcpPacketRcvd = last.tcpPacketsRcvd.int - first.tcpPacketsRcvd.int

theorem report_completes (snapshots : List Snapshot) (first last : Snapshot) (currentSnapshot cpuCores : Nat)
    (nonempty : snapshots ≠ []) (selected : lastSnapshot snapshots currentSnapshot = some last) :
    ∃ report, computePerformanceReport snapshots (some first) currentSnapshot cpuCores = some report ∧
      report.udpPacketSent = last.udpPacketsSent.int - first.udpPacketsSent.int ∧
      report.udpPacketRcvd = last.udpPacketsRcvd.int - first.udpPacketsRcvd.int ∧
      report.tcpPacketSent = last.tcpPacketsSent.int - first.tcpPacketsSent.int ∧
      report.tcpPacketRcvd = last.tcpPacketsRcvd.int - first.tcpPacketsRcvd.int := by
  have notEmpty : snapshots.isEmpty = false := by simpa using nonempty
  exact ⟨_, by simp only [computePerformanceReport, notEmpty, selected]; rfl, rfl, rfl, rfl, rfl⟩

theorem last_snapshot_selected (snapshotSize : Nat) (positive : 1 ≤ snapshotSize) (samples : List Snapshot)
    (sampler : Sampler Snapshot) (sampled : Sampled snapshotSize samples sampler) (some : samples ≠ []) :
    lastSnapshot sampler.snapshots sampler.currentSnapshot = samples.getLast? ↔
      samples.length = 1 ∨ snapshotSize < samples.length ∨ samples.head? = samples.getLast? := by
  by_cases wrapped : snapshotSize < samples.length
  · simp [last_snapshot_wrapped snapshotSize positive samples sampler sampled wrapped, wrapped]
  · rw [last_snapshot_filling snapshotSize samples sampler sampled some (Nat.le_of_not_lt wrapped)]
    have single : samples.length = 1 → samples.head? = samples.getLast? := by
      intro one
      obtain ⟨only, rfl⟩ := List.length_eq_one_iff.mp one
      rfl
    constructor
    · exact fun same => Or.inr (Or.inr same)
    · intro regime
      rcases regime with one | full | same
      · exact single one
      · exact False.elim (wrapped full)
      · exact same

theorem report_data (snapshots : List Snapshot) (firstSnapshot : Option Snapshot) (currentSnapshot cpuCores : Nat)
    (report : Report) (reported : computePerformanceReport snapshots firstSnapshot currentSnapshot cpuCores = some report) :
    report.jsonData =
      { cpuData := series snapshots Snapshot.cpu
        meanCpu := cpuMean snapshots
        cpuCores := cpuCores
        memoryData := series snapshots Snapshot.memory
        meanMemory := intMean snapshots Snapshot.memory
        udpPacketsSent := series snapshots Snapshot.udpPacketsSent
        udpPacketsRcvd := series snapshots Snapshot.udpPacketsRcvd
        tcpPacketsSent := series snapshots Snapshot.tcpPacketsSent
        tcpPacketsRcvd := series snapshots Snapshot.tcpPacketsRcvd } := by
  rw [computePerformanceReport] at reported
  split at reported
  · cases reported
  · obtain ⟨last, _, made⟩ := Option.bind_eq_some_iff.mp reported
    obtain ⟨first, _, rfl⟩ := Option.map_eq_some_iff.mp made
    rfl

theorem process_message_completes (snapshotSize cpuCores : Nat) (samples : List Snapshot)
    (positive : 1 ≤ snapshotSize) (taken : 1 ≤ samples.length) :
    ∃ sampler first last report, sampleLoop snapshotSize samples = some sampler ∧
      Sampled snapshotSize samples sampler ∧ sampler.firstSnapshot = some first ∧
      lastSnapshot sampler.snapshots sampler.currentSnapshot = some last ∧
      computePerformanceReport sampler.snapshots (some first) sampler.currentSnapshot cpuCores = some report ∧
      processMessage snapshotSize cpuCores samples = some report ∧
      report.udpPacketSent = last.udpPacketsSent.int - first.udpPacketsSent.int ∧
      report.udpPacketRcvd = last.udpPacketsRcvd.int - first.udpPacketsRcvd.int ∧
      report.tcpPacketSent = last.tcpPacketsSent.int - first.tcpPacketsSent.int ∧
      report.tcpPacketRcvd = last.tcpPacketsRcvd.int - first.tcpPacketsRcvd.int := by
  have nonempty : samples ≠ [] := List.ne_nil_of_length_pos taken
  obtain ⟨sampler, completed, sampled⟩ := sample_loop_sampled snapshotSize positive samples
  have stored := sampled_nonempty snapshotSize positive samples sampler sampled nonempty
  have inRange := Nat.mod_lt sampler.currentSnapshot (List.length_pos_of_ne_nil stored)
  obtain ⟨first, firstEq⟩ : ∃ first, sampler.firstSnapshot = some first :=
    ⟨_, sampled.first.trans (List.head?_eq_some_head nonempty)⟩
  obtain ⟨selected, selectedEq⟩ : ∃ last, lastSnapshot sampler.snapshots sampler.currentSnapshot = some last :=
    ⟨_, List.getElem?_eq_getElem inRange⟩
  obtain ⟨report, reported, totals⟩ :=
    report_completes sampler.snapshots first selected sampler.currentSnapshot cpuCores stored selectedEq
  refine ⟨sampler, first, selected, report, completed, sampled, firstEq, selectedEq, reported, ?_, totals⟩
  rw [processMessage, completed, Option.bind_some, firstEq]
  exact reported

theorem report_spans_run_iff (snapshotSize cpuCores : Nat) (samples : List Snapshot)
    (positive : 1 ≤ snapshotSize) (taken : 1 ≤ samples.length) :
    ∃ sampler report, sampleLoop snapshotSize samples = some sampler ∧
      processMessage snapshotSize cpuCores samples = some report ∧
      (SpansRun samples sampler report ↔
        samples.length = 1 ∨ snapshotSize < samples.length ∨ samples.head? = samples.getLast?) := by
  have nonempty : samples ≠ [] := List.ne_nil_of_length_pos taken
  obtain ⟨sampler, first, selected, report, completed, sampled, firstTaken, selectedEq, _, reported, totals⟩ :=
    process_message_completes snapshotSize cpuCores samples positive taken
  obtain ⟨newest, newestEq⟩ : ∃ last, samples.getLast? = some last := ⟨_, List.getLast?_eq_some_getLast nonempty⟩
  refine ⟨sampler, report, completed, reported, ?_⟩
  rw [← last_snapshot_selected snapshotSize positive samples sampler sampled nonempty, newestEq]
  constructor
  · intro spans
    obtain ⟨_, last, _, isLast, _, chosen, _⟩ := spans
    rw [chosen, ← isLast, newestEq]
  · intro chosen
    have same : selected = newest := Option.some.inj (selectedEq.symm.trans chosen)
    subst newest
    exact ⟨first, selected, sampled.first.symm.trans firstTaken, newestEq, firstTaken, selectedEq, totals⟩

def idleSnapshot (packets : Counter) : Snapshot :=
  { cpu := 0, systemCpu := 0, memory := 0, systemMemory := 0, files := 0,
    udpPacketsSent := packets, udpPacketsRcvd := packets, tcpPacketsSent := packets, tcpPacketsRcvd := packets }

def fivePackets : Counter := ⟨['5'], by decide, by simp [Char.isDigit]⟩
def ninePackets : Counter := ⟨['9'], by decide, by simp [Char.isDigit]⟩

theorem report_spans_wrapped_run :
    ∃ sampler report,
      sampleLoop 1 [idleSnapshot fivePackets, idleSnapshot ninePackets] = some sampler ∧
      processMessage 1 4 [idleSnapshot fivePackets, idleSnapshot ninePackets] = some report ∧
      SpansRun [idleSnapshot fivePackets, idleSnapshot ninePackets] sampler report := by
  obtain ⟨sampler, report, completed, reported, spans⟩ :=
    report_spans_run_iff 1 4 [idleSnapshot fivePackets, idleSnapshot ninePackets] (by decide) (by decide)
  exact ⟨sampler, report, completed, reported, spans.mpr (Or.inr (Or.inl (by decide)))⟩

-- agent.yaml ships snapshotSize = maxSnapshots = 30: the slot read as the last
-- one is slot 0 and still holds the first sample.
def shippedSize : Nat := 30

def shippedSamples : List Snapshot :=
  idleSnapshot fivePackets :: List.replicate 29 (idleSnapshot ninePackets)

theorem shipped_report_misses_newest :
    shippedSamples.length = shippedSize ∧
      ¬ ∃ sampler report, sampleLoop shippedSize shippedSamples = some sampler ∧
        processMessage shippedSize 4 shippedSamples = some report ∧ SpansRun shippedSamples sampler report := by
  refine ⟨rfl, ?_⟩
  intro reported
  obtain ⟨sampler, report, completed, _, first, last, _, isLast, _, chosen, _⟩ := reported
  obtain ⟨other, otherCompleted, sampled⟩ := sample_loop_sampled shippedSize (by decide) shippedSamples
  have same : sampler = other := Option.some.inj (completed.symm.trans otherCompleted)
  subst other
  have selected := last_snapshot_filling shippedSize shippedSamples sampler sampled (by decide) (by decide)
  have newest : shippedSamples.getLast? = some (idleSnapshot ninePackets) := rfl
  have oldest : shippedSamples.head? = some (idleSnapshot fivePackets) := rfl
  rw [selected, oldest, ← isLast, newest] at chosen
  exact absurd (congrArg (Option.map fun snapshot => snapshot.udpPacketsSent.text) chosen) (by decide)

end AppFit.Agent
