import Mathlib.Algebra.BigOperators.Group.List.Basic
import Mathlib.Algebra.Order.Field.Rat
import Mathlib.Data.List.Induction

/- The sampling loop of agent.py and the performance report made from its
   snapshot buffer. The samples themselves (psutil, netstat) are inputs; the
   process that is sampled, its log files and the sleeps are not modelled. -/
set_option autoImplicit false

namespace AppFit.Agent

variable {α : Type}

-- snapshots[i] = x of a Python list; none is the IndexError.
def setItem (items : List α) (index : Nat) (value : α) : Option (List α) :=
  if index < items.length then some (items.set index value) else none

structure Sampler (α : Type) where
  currentSnapshot : Nat
  snapshots : List α
  firstSnapshot : Option α

def startSampler : Sampler α := ⟨0, [], none⟩

-- The counter is incremented before it selects the slot. A snapshot is a
-- non-empty dict, so "not firstSnapshot" only asks whether one was taken.
def takeSample (snapshotSize : Nat) (sampler : Sampler α) (sndict : α) : Option (Sampler α) :=
  let currentSnapshot := sampler.currentSnapshot + 1
  let stored :=
    if currentSnapshot ≤ snapshotSize then some (sampler.snapshots ++ [sndict])
    else setItem sampler.snapshots (currentSnapshot % snapshotSize) sndict
  stored.map fun snapshots => ⟨currentSnapshot, snapshots, sampler.firstSnapshot.or (some sndict)⟩

def sampleLoop (snapshotSize : Nat) (samples : List α) : Option (Sampler α) :=
  samples.foldlM (takeSample snapshotSize) startSampler

-- The 1-based number of the sample that a slot holds after the given number of
-- iterations: the last write to the slot once the buffer is full, else the append.
def slotSample (snapshotSize : Nat) : Nat → Nat → Nat
  | 0, slot => slot + 1
  | taken + 1, slot =>
      if snapshotSize < taken + 1 ∧ (taken + 1) % snapshotSize = slot then taken + 1
      else slotSample snapshotSize taken slot

structure Sampled (snapshotSize : Nat) (samples : List α) (sampler : Sampler α) : Prop where
  counted : sampler.currentSnapshot = samples.length
  size : sampler.snapshots.length = min samples.length snapshotSize
  slots : ∀ slot < min samples.length snapshotSize,
    sampler.snapshots[slot]? = samples[slotSample snapshotSize samples.length slot - 1]?
  first : sampler.firstSnapshot = samples.head?

theorem slot_sample_filling (snapshotSize taken slot : Nat) (filling : taken ≤ snapshotSize) :
    slotSample snapshotSize taken slot = slot + 1 := by
  induction taken with
  | zero => rfl
  | succ taken ih =>
      have notFull : ¬ (snapshotSize < taken + 1 ∧ (taken + 1) % snapshotSize = slot) := by omega
      rw [slotSample, if_neg notFull, ih (by omega)]

theorem slot_sample_newest (snapshotSize taken : Nat) (full : snapshotSize < taken) :
    slotSample snapshotSize taken (taken % snapshotSize) = taken := by
  cases taken with
  | zero => omega
  | succ taken => rw [slotSample, if_pos ⟨full, rfl⟩]

theorem slot_sample_bounds (snapshotSize taken slot : Nat) (inRange : slot < min taken snapshotSize) :
    1 ≤ slotSample snapshotSize taken slot ∧ slotSample snapshotSize taken slot ≤ taken := by
  induction taken with
  | zero => omega
  | succ taken ih =>
      rw [slotSample]
      split
      · omega
      · by_cases filling : taken + 1 ≤ snapshotSize
        · rw [slot_sample_filling snapshotSize taken slot (by omega)]
          omega
        · have earlier := ih (by omega)
          omega

theorem take_sample_append (snapshotSize : Nat) (sampler : Sampler α) (sndict : α)
    (room : sampler.currentSnapshot + 1 ≤ snapshotSize) :
    takeSample snapshotSize sampler sndict =
      some ⟨sampler.currentSnapshot + 1, sampler.snapshots ++ [sndict], sampler.firstSnapshot.or (some sndict)⟩ := by
  simp only [takeSample, if_pos room, Option.map_some]

theorem take_sample_overwrite (snapshotSize : Nat) (sampler : Sampler α) (sndict : α)
    (full : snapshotSize < sampler.currentSnapshot + 1)
    (inRange : (sampler.currentSnapshot + 1) % snapshotSize < sampler.snapshots.length) :
    takeSample snapshotSize sampler sndict =
      some ⟨sampler.currentSnapshot + 1,
        sampler.snapshots.set ((sampler.currentSnapshot + 1) % snapshotSize) sndict,
        sampler.firstSnapshot.or (some sndict)⟩ := by
  simp only [takeSample, if_neg (Nat.not_le_of_gt full), setItem, if_pos inRange, Option.map_some]

theorem head_snoc (samples : List α) (sndict : α) :
    samples.head?.or (some sndict) = (samples ++ [sndict]).head? := by
  cases samples <;> rfl

theorem take_sample_sampled (snapshotSize : Nat) (positive : 1 ≤ snapshotSize) (samples : List α)
    (sampler : Sampler α) (sndict : α) (sampled : Sampled snapshotSize samples sampler) :
    ∃ next, takeSample snapshotSize sampler sndict = some next ∧
      Sampled snapshotSize (samples ++ [sndict]) next := by
  have counted := sampled.counted
  have size := sampled.size
  have first : sampler.firstSnapshot.or (some sndict) = (samples ++ [sndict]).head? := by
    rw [sampled.first, head_snoc]
  by_cases room : sampler.currentSnapshot + 1 ≤ snapshotSize
  · refine ⟨_, take_sample_append snapshotSize sampler sndict room, ?_, ?_, ?_, first⟩
    · simp [counted]
    · simp only [List.length_append, List.length_singleton]
      omega
    · intro slot inRange
      simp only [List.length_append, List.length_singleton] at inRange ⊢
      rw [slot_sample_filling snapshotSize (samples.length + 1) slot (by omega)]
      by_cases last : slot = samples.length
      · have atEnd : sampler.snapshots.length = samples.length := by omega
        simp [last, atEnd]
      · have earlier := sampled.slots slot (by omega)
        rw [slot_sample_filling snapshotSize samples.length slot (by omega)] at earlier
        rw [List.getElem?_append_left (by omega), List.getElem?_append_left (by omega), earlier]
  · have full : snapshotSize < sampler.currentSnapshot + 1 := by omega
    have bounded := Nat.mod_lt (sampler.currentSnapshot + 1) (show 0 < snapshotSize by omega)
    refine ⟨_, take_sample_overwrite snapshotSize sampler sndict full (by omega), ?_, ?_, ?_, first⟩
    · simp [counted]
    · simp only [List.length_set, List.length_append, List.length_singleton]
      omega
    · intro slot inRange
      simp only [List.length_append, List.length_singleton] at inRange ⊢
      rw [slotSample, ← counted]
      by_cases written : (sampler.currentSnapshot + 1) % snapshotSize = slot
      · rw [if_pos ⟨full, written⟩, written, List.getElem?_set_self (by omega), counted]
        simp
      · have bounds := slot_sample_bounds snapshotSize samples.length slot (by omega)
        rw [if_neg (fun both => written both.2), List.getElem?_set_ne written, sampled.slots slot (by omega),
          counted, List.getElem?_append_left (by omega)]

theorem sample_loop_snoc (snapshotSize : Nat) (samples : List α) (sndict : α) :
    sampleLoop snapshotSize (samples ++ [sndict]) =
      (sampleLoop snapshotSize samples).bind fun sampler => takeSample snapshotSize sampler sndict := by
  simp [sampleLoop, List.foldlM_append]

theorem sample_loop_sampled (snapshotSize : Nat) (positive : 1 ≤ snapshotSize) (samples : List α) :
    ∃ sampler, sampleLoop snapshotSize samples = some sampler ∧ Sampled snapshotSize samples sampler := by
  induction samples using List.reverseRecOn with
  | nil => exact ⟨startSampler, rfl, rfl, by simp [startSampler], by simp, rfl⟩
  | append_singleton samples sndict ih =>
      obtain ⟨sampler, completed, sampled⟩ := ih
      obtain ⟨next, taken, nextSampled⟩ := take_sample_sampled snapshotSize positive samples sampler sndict sampled
      refine ⟨next, ?_, nextSampled⟩
      rw [sample_loop_snoc, completed]
      exact taken

theorem sampled_nonempty (snapshotSize : Nat) (positive : 1 ≤ snapshotSize) (samples : List α)
    (sampler : Sampler α) (sampled : Sampled snapshotSize samples sampler) (some : samples ≠ []) :
    sampler.snapshots ≠ [] := by
  have size := sampled.size
  have taken := List.length_pos_of_ne_nil some
  intro empty
  simp only [empty, List.length_nil] at size
  omega

end AppFit.Agent
