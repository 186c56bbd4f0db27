import Mathlib.Order.Bounds.Basic
import AppFit.Agent.Report

/- Where the samples of a run are in the snapshot buffer: which sample each slot
   holds, which samples the whole buffer keeps, and in which order the report's
   series repeat them. The first samples are appended from slot 0 on, the later
   ones overwrite the slot their own number selects, so the buffer is one slot out
   of step until it has been overwritten once. -/
set_option autoImplicit false

namespace AppFit.Agent

variable {α : Type}

-- The numbers of the samples that were written over the slot.
def overwrites (snapshotSize taken slot : Nat) : Set Nat :=
  { number | snapshotSize < number ∧ number ≤ taken ∧ number % snapshotSize = slot }

def SlotNumber (snapshotSize taken slot number : Nat) : Prop :=
  IsGreatest (overwrites snapshotSize taken slot) number ∨
    overwrites snapshotSize taken slot = ∅ ∧ number = slot + 1

theorem slot_sample_number (snapshotSize taken slot : Nat) :
    SlotNumber snapshotSize taken slot (slotSample snapshotSize taken slot) := by
  induction taken with
  | zero =>
      apply Or.inr
      refine ⟨Set.eq_empty_of_forall_notMem ?_, rfl⟩
      intro number member
      obtain ⟨large, none, _⟩ := member
      omega
  | succ taken ih =>
      rw [slotSample]
      by_cases written : snapshotSize < taken + 1 ∧ (taken + 1) % snapshotSize = slot
      · rw [if_pos written]
        apply Or.inl
        refine ⟨⟨written.1, Nat.le_refl _, written.2⟩, ?_⟩
        intro number member
        exact member.2.1
      · rw [if_neg written]
        have same : overwrites snapshotSize (taken + 1) slot = overwrites snapshotSize taken slot := by
          ext number
          constructor
          · intro member
            obtain ⟨large, bound, selects⟩ := member
            refine ⟨large, ?_, selects⟩
            by_contra beyond
            have last : number = taken + 1 := by omega
            subst last
            exact written ⟨large, selects⟩
          · intro member
            exact ⟨member.1, Nat.le_succ_of_le member.2.1, member.2.2⟩
        rw [SlotNumber, same]
        exact ih

-- Between S and 2S samples: slot 0 still holds the first sample.
theorem slot_sample_middle (snapshotSize extra slot : Nat) (inRange : slot < snapshotSize)
    (partly : extra < snapshotSize) :
    slotSample snapshotSize (snapshotSize + extra) slot =
      if 1 ≤ slot ∧ slot ≤ extra then snapshotSize + slot else slot + 1 := by
  induction extra with
  | zero =>
      rw [Nat.add_zero, slot_sample_filling snapshotSize _ slot (Nat.le_refl _), if_neg (by omega)]
  | succ extra ih =>
      have selected : (snapshotSize + extra + 1) % snapshotSize = extra + 1 := by
        rw [Nat.add_assoc, Nat.add_mod_left, Nat.mod_eq_of_lt partly]
      rw [← Nat.add_assoc, slotSample, selected, ih (by omega)]
      split_ifs <;> omega

theorem mod_succ (count size : Nat) (positive : 1 ≤ size) :
    (count + 1) % size = if count % size + 1 = size then 0 else count % size + 1 := by
  have bound := Nat.mod_lt count (show 0 < size by omega)
  rw [Nat.add_mod_eq_ite]
  by_cases one : size = 1
  · subst one
    simp [Nat.mod_one]
  · rw [Nat.mod_eq_of_lt (show 1 < size by omega)]
    split_ifs <;> omega

theorem dvd_succ_iff (count size : Nat) (positive : 1 ≤ size) : size ∣ count + 1 ↔ count % size + 1 = size := by
  rw [Nat.dvd_iff_mod_eq_zero, mod_succ count size positive]
  by_cases last : count % size + 1 = size <;> simp [last]

-- From 2S samples on: the newest sample is in slot N mod S, the slots after it
-- are one round behind.
theorem slot_sample_wrapped (snapshotSize extra slot : Nat) (inRange : slot < snapshotSize) :
    slotSample snapshotSize (2 * snapshotSize + extra) slot + (2 * snapshotSize + extra) % snapshotSize =
      if slot ≤ (2 * snapshotSize + extra) % snapshotSize then 2 * snapshotSize + extra + slot
      else snapshotSize + extra + slot := by
  induction extra with
  | zero =>
      have before := slot_sample_middle snapshotSize (snapshotSize - 1) slot inRange (by omega)
      have start : 2 * snapshotSize + 0 = snapshotSize + (snapshotSize - 1) + 1 := by omega
      have selected : (2 * snapshotSize) % snapshotSize = 0 := Nat.mul_mod_left 2 snapshotSize
      rw [Nat.add_zero, selected]
      rw [Nat.add_zero] at start
      rw [start, slotSample, before, ← start, selected]
      split_ifs <;> omega
  | succ extra ih =>
      have bound := Nat.mod_lt (2 * snapshotSize + extra) (show 0 < snapshotSize by omega)
      rw [← Nat.add_assoc, slotSample, mod_succ _ snapshotSize (by omega)]
      split_ifs at ih ⊢ <;> omega

theorem snapshots_slots (snapshotSize : Nat) (samples expected : List α) (sampler : Sampler α)
    (sampled : Sampled snapshotSize samples sampler) (size : expected.length = min samples.length snapshotSize)
    (slots : ∀ slot < min samples.length snapshotSize,
      expected[slot]? = samples[slotSample snapshotSize samples.length slot - 1]?) : sampler.snapshots = expected := by
  apply List.ext_getElem?
  intro slot
  by_cases inRange : slot < min samples.length snapshotSize
  · rw [sampled.slots slot inRange, slots slot inRange]
  · have length := sampled.size
    rw [List.getElem?_eq_none (by omega), List.getElem?_eq_none (by omega)]

theorem snapshots_filling (snapshotSize : Nat) (samples : List α) (sampler : Sampler α)
    (sampled : Sampled snapshotSize samples sampler) (filling : samples.length ≤ snapshotSize) :
    sampler.snapshots = samples := by
  apply snapshots_slots snapshotSize samples samples sampler sampled (by omega)
  intro slot _
  rw [slot_sample_filling snapshotSize samples.length slot filling, Nat.add_sub_cancel]

theorem snapshots_middle (snapshotSize extra : Nat) (samples : List α) (sampler : Sampler α)
    (sampled : Sampled snapshotSize samples sampler) (taken : samples.length = snapshotSize + extra)
    (partly : extra < snapshotSize) :
    sampler.snapshots = samples.take 1 ++
      (samples.drop snapshotSize ++ (samples.drop (extra + 1)).take (snapshotSize - 1 - extra)) := by
  apply snapshots_slots snapshotSize samples _ sampler sampled
  · simp only [List.length_append, List.length_take, List.length_drop]
    omega
  · intro slot inRange
    rw [taken, slot_sample_middle snapshotSize extra slot (by omega) partly]
    by_cases first : slot = 0
    · subst first
      rw [List.getElem?_append_left (by simp; omega), List.getElem?_take_of_lt (by omega), if_neg (by omega)]
    · rw [List.getElem?_append_right (by simp; omega)]
      have single : (samples.take 1).length = 1 := by simp; omega
      rw [single]
      by_cases later : slot ≤ extra
      · rw [List.getElem?_append_left (by simp; omega), List.getElem?_drop, if_pos ⟨by omega, later⟩]
        congr 1
        omega
      · rw [List.getElem?_append_right (by simp; omega), List.length_drop, List.getElem?_take_of_lt (by omega),
          List.getElem?_drop, if_neg (by omega)]
        congr 1
        omega

theorem snapshots_wrapped (snapshotSize extra : Nat) (samples : List α) (sampler : Sampler α)
    (sampled : Sampled snapshotSize samples sampler) (positive : 1 ≤ snapshotSize)
    (taken : samples.length = 2 * snapshotSize + extra) :
    sampler.snapshots = samples.drop (samples.length - 1 - samples.length % snapshotSize) ++
      (samples.drop (samples.length - snapshotSize)).take (snapshotSize - 1 - samples.length % snapshotSize) := by
  have bound := Nat.mod_lt samples.length (show 0 < snapshotSize by omega)
  apply snapshots_slots snapshotSize samples _ sampler sampled
  · simp only [List.length_append, List.length_take, List.length_drop]
    omega
  · intro slot inRange
    have number := slot_sample_wrapped snapshotSize extra slot (by omega)
    rw [← taken] at number
    by_cases newest : slot ≤ samples.length % snapshotSize
    · rw [if_pos newest] at number
      rw [List.getElem?_append_left (by simp; omega), List.getElem?_drop]
      congr 1
      omega
    · rw [if_neg newest] at number
      rw [List.getElem?_append_right (by simp; omega), List.length_drop, List.getElem?_take_of_lt (by omega),
        List.getElem?_drop]
      congr 1
      omega

-- The samples that a buffer of the given size should keep.
def newestSamples (snapshotSize : Nat) (samples : List α) : List α :=
  samples.drop (samples.length - min samples.length snapshotSize)

theorem newest_filling (snapshotSize : Nat) (samples : List α) (filling : samples.length ≤ snapshotSize) :
    newestSamples snapshotSize samples = samples := by
  rw [newestSamples, Nat.min_eq_left filling, Nat.sub_self, List.drop_zero]

theorem wrapped_keeps_newest (snapshotSize : Nat) (samples : List α) (sampler : Sampler α)
    (sampled : Sampled snapshotSize samples sampler) (positive : 1 ≤ snapshotSize)
    (wrapped : 2 * snapshotSize ≤ samples.length) : sampler.snapshots.Perm (newestSamples snapshotSize samples) := by
  have bound := Nat.mod_lt samples.length (show 0 < snapshotSize by omega)
  have buffer := snapshots_wrapped snapshotSize (samples.length - 2 * snapshotSize) samples sampler sampled positive
    (by omega)
  have split := List.take_append_drop (snapshotSize - 1 - samples.length % snapshotSize)
    (samples.drop (samples.length - snapshotSize))
  rw [List.drop_drop] at split
  have behind : samples.length - snapshotSize + (snapshotSize - 1 - samples.length % snapshotSize) =
      samples.length - 1 - samples.length % snapshotSize := by omega
  rw [behind] at split
  have recent : newestSamples snapshotSize samples = samples.drop (samples.length - snapshotSize) := by
    rw [newestSamples, Nat.min_eq_right (by omega)]
  rw [recent, buffer]
  exact List.perm_append_comm.trans (List.Perm.of_eq split)

theorem to_list_perm_iff (left right : Option α) : left.toList.Perm right.toList ↔ left = right := by
  cases left <;> cases right <;> simp

-- One sample is kept too long, and the one after the dropped ones is missing.
theorem middle_keeps_newest (snapshotSize extra : Nat) (samples : List α) (sampler : Sampler α)
    (sampled : Sampled snapshotSize samples sampler) (taken : samples.length = snapshotSize + extra)
    (partly : extra < snapshotSize) :
    sampler.snapshots.Perm (newestSamples snapshotSize samples) ↔ samples.head? = samples[extra]? := by
  have buffer := snapshots_middle snapshotSize extra samples sampler sampled taken partly
  have recent : newestSamples snapshotSize samples = samples.drop extra := by
    rw [newestSamples, Nat.min_eq_right (by omega), taken, Nat.add_sub_cancel_left]
  have head := List.take_append_drop 1 (samples.drop extra)
  have rest := List.take_append_drop (snapshotSize - 1 - extra) (samples.drop (extra + 1))
  rw [List.drop_drop] at head rest
  have behind : extra + 1 + (snapshotSize - 1 - extra) = snapshotSize := by omega
  rw [behind] at rest
  rw [← rest] at head
  rw [recent, buffer, ← head, (List.perm_append_comm.append_left (samples.take 1)).congr_left,
    List.perm_append_right_iff, List.take_one, List.take_one, to_list_perm_iff, List.head?_drop]

theorem buffer_keeps_newest_iff (snapshotSize : Nat) (samples : List α) (positive : 1 ≤ snapshotSize) :
    ∃ sampler, sampleLoop snapshotSize samples = some sampler ∧
      (sampler.snapshots.Perm (newestSamples snapshotSize samples) ↔
        samples.length ≤ snapshotSize ∨ 2 * snapshotSize ≤ samples.length ∨
          samples.head? = samples[samples.length - snapshotSize]?) := by
  obtain ⟨sampler, completed, sampled⟩ := sample_loop_sampled snapshotSize positive samples
  refine ⟨sampler, completed, ?_⟩
  by_cases filling : samples.length ≤ snapshotSize
  · have buffer := snapshots_filling snapshotSize samples sampler sampled filling
    rw [buffer, newest_filling snapshotSize samples filling]
    exact ⟨fun _ => .inl filling, fun _ => List.Perm.refl _⟩
  · by_cases wrapped : 2 * snapshotSize ≤ samples.length
    · exact ⟨fun _ => .inr (.inl wrapped), fun _ => wrapped_keeps_newest snapshotSize samples sampler sampled positive wrapped⟩
    · rw [middle_keeps_newest snapshotSize (samples.length - snapshotSize) samples sampler sampled (by omega) (by omega)]
      constructor
      · exact fun same => .inr (.inr same)
      · intro regime
        rcases regime with small | large | same
        · exact absurd small filling
        · exact absurd large wrapped
        · exact same

theorem wrapped_buffer_keeps_newest :
    ∃ sampler, sampleLoop 2 [10, 11, 12, 13, 14] = some sampler ∧ sampler.snapshots.Perm [13, 14] := by
  obtain ⟨sampler, completed, keeps⟩ := buffer_keeps_newest_iff 2 [10, 11, 12, 13, 14] (by decide)
  exact ⟨sampler, completed, keeps.mpr (.inr (.inl (by decide)))⟩

-- The fourth sample overwrites the second one and the first is kept.
theorem fourth_sample_loses_second :
    ∃ sampler, sampleLoop 3 [10, 11, 12, 13] = some sampler ∧ ¬ sampler.snapshots.Perm [11, 12, 13] :=
  ⟨⟨4, [10, 13, 12], some 10⟩, rfl, by decide⟩

theorem buffer_slot_numbers (snapshotSize : Nat) (samples : List α) (positive : 1 ≤ snapshotSize) :
    ∃ sampler, sampleLoop snapshotSize samples = some sampler ∧
      sampler.snapshots.length = min samples.length snapshotSize ∧
      (∀ slot < min samples.length snapshotSize, ∃ number, SlotNumber snapshotSize samples.length slot number ∧
        1 ≤ number ∧ number ≤ samples.length ∧ sampler.snapshots[slot]? = samples[number - 1]?) ∧
      (2 * snapshotSize ≤ samples.length →
        sampler.snapshots.Perm (newestSamples snapshotSize samples) ∧
          sampler.snapshots[samples.length % snapshotSize]? = samples.getLast?) := by
  obtain ⟨sampler, completed, sampled⟩ := sample_loop_sampled snapshotSize positive samples
  refine ⟨sampler, completed, sampled.size, ?_, ?_⟩
  · intro slot inRange
    obtain ⟨lower, upper⟩ := slot_sample_bounds snapshotSize samples.length slot inRange
    exact ⟨_, slot_sample_number snapshotSize samples.length slot, lower, upper, sampled.slots slot inRange⟩
  · intro wrapped
    have bound := Nat.mod_lt samples.length (show 0 < snapshotSize by omega)
    refine ⟨wrapped_keeps_newest snapshotSize samples sampler sampled positive wrapped, ?_⟩
    rw [sampled.slots _ (by omega), slot_sample_newest snapshotSize samples.length (by omega), List.getLast?_eq_getElem?]

theorem two_slots_five_samples :
    ∃ sampler, sampleLoop 2 [10, 11, 12, 13, 14] = some sampler ∧ sampler.snapshots.length = 2 ∧
      sampler.snapshots.Perm [13, 14] ∧ sampler.snapshots[1]? = some 14 := by
  obtain ⟨sampler, completed, size, _, wrapped⟩ := buffer_slot_numbers 2 [10, 11, 12, 13, 14] (by decide)
  obtain ⟨newest, last⟩ := wrapped (by decide)
  exact ⟨sampler, completed, size, newest, last⟩

-- When the sample in each slot was taken: the loop run on samples that carry
-- their position in the run.
def sampleTimes (snapshotSize : Nat) (samples : List α) : Option (List Nat) :=
  (sampleLoop snapshotSize samples.zipIdx).map fun sampler => sampler.snapshots.map Prod.snd

-- The value at position x of the series is the field of the sample taken at times[x].
structure Repeats {β : Type} (samples : List Snapshot) (times : List Nat) (field : Snapshot → β) (series : Series β) :
    Prop where
  positions : series.x = List.range times.length
  values : series.y.map some = times.map fun time => samples[time]?.map field

structure SeriesInOrder (samples : List Snapshot) (times : List Nat) (data : JsonData) : Prop where
  cpu : Repeats samples times Snapshot.cpu data.cpuData
  memory : Repeats samples times Snapshot.memory data.memoryData
  udpSent : Repeats samples times Snapshot.udpPacketsSent data.udpPacketsSent
  udpRcvd : Repeats samples times Snapshot.udpPacketsRcvd data.udpPacketsRcvd
  tcpSent : Repeats samples times Snapshot.tcpPacketsSent data.tcpPacketsSent
  tcpRcvd : Repeats samples times Snapshot.tcpPacketsRcvd data.tcpPacketsRcvd
  ordered : times.Pairwise (· < ·)

theorem sample_times_slots (snapshotSize : Nat) (samples : List α) (positive : 1 ≤ snapshotSize) :
    ∃ times, sampleTimes snapshotSize samples = some times ∧ times.length = min samples.length snapshotSize ∧
      ∀ slot < min samples.length snapshotSize,
        times[slot]? = some (slotSample snapshotSize samples.length slot - 1) := by
  obtain ⟨sampler, completed, sampled⟩ := sample_loop_sampled snapshotSize positive samples.zipIdx
  have size := sampled.size
  have slots := sampled.slots
  rw [List.length_zipIdx] at size slots
  refine ⟨sampler.snapshots.map Prod.snd, by rw [sampleTimes, completed]; rfl, by rw [List.length_map, size], ?_⟩
  intro slot inRange
  obtain ⟨lower, upper⟩ := slot_sample_bounds snapshotSize samples.length slot inRange
  rw [List.getElem?_map, slots slot inRange, List.getElem?_zipIdx, List.getElem?_eq_getElem (by omega)]
  simp

theorem slots_ascend_middle (snapshotSize extra : Nat) (partly : extra < snapshotSize) :
    (∀ first second, first < second → second < snapshotSize →
      slotSample snapshotSize (snapshotSize + extra) first < slotSample snapshotSize (snapshotSize + extra) second) ↔
        extra = 0 ∨ extra + 1 = snapshotSize := by
  constructor
  · intro ascend
    by_contra neither
    have step := ascend extra (extra + 1) (by omega) (by omega)
    rw [slot_sample_middle _ _ _ (by omega) partly, slot_sample_middle _ _ _ (by omega) partly,
      if_pos (by omega), if_neg (by omega)] at step
    omega
  · intro regime first second before inRange
    rw [slot_sample_middle _ _ _ (by omega) partly, slot_sample_middle _ _ _ inRange partly]
    split_ifs <;> omega

theorem slots_ascend_wrapped (snapshotSize extra : Nat) (positive : 1 ≤ snapshotSize) :
    (∀ first second, first < second → second < snapshotSize →
      slotSample snapshotSize (2 * snapshotSize + extra) first <
        slotSample snapshotSize (2 * snapshotSize + extra) second) ↔
          (2 * snapshotSize + extra) % snapshotSize + 1 = snapshotSize := by
  have bound := Nat.mod_lt (2 * snapshotSize + extra) (show 0 < snapshotSize by omega)
  constructor
  · intro ascend
    by_contra behind
    have step := ascend ((2 * snapshotSize + extra) % snapshotSize) ((2 * snapshotSize + extra) % snapshotSize + 1)
      (by omega) (by omega)
    have newest := slot_sample_wrapped snapshotSize extra _ bound
    have oldest := slot_sample_wrapped snapshotSize extra ((2 * snapshotSize + extra) % snapshotSize + 1) (by omega)
    rw [if_pos (Nat.le_refl _)] at newest
    rw [if_neg (by omega)] at oldest
    omega
  · intro last first second before inRange
    have left := slot_sample_wrapped snapshotSize extra first (by omega)
    have right := slot_sample_wrapped snapshotSize extra second inRange
    rw [if_pos (by omega)] at left right
    omega

theorem slots_ascend_iff (snapshotSize taken : Nat) (positive : 1 ≤ snapshotSize) :
    (∀ first second, first < second → second < min taken snapshotSize →
      slotSample snapshotSize taken first < slotSample snapshotSize taken second) ↔
        taken ≤ snapshotSize ∨ snapshotSize ∣ taken + 1 := by
  by_cases filling : taken ≤ snapshotSize
  · simp only [filling, true_or, iff_true]
    intro first second before inRange
    rw [slot_sample_filling _ _ _ filling, slot_sample_filling _ _ _ filling]
    omega
  · have full : min taken snapshotSize = snapshotSize := by omega
    simp only [full, filling, false_or]
    rw [dvd_succ_iff taken snapshotSize positive]
    by_cases wrapped : 2 * snapshotSize ≤ taken
    · obtain ⟨extra, rfl⟩ := Nat.exists_eq_add_of_le wrapped
      exact slots_ascend_wrapped snapshotSize extra positive
    · obtain ⟨extra, rfl⟩ := Nat.exists_eq_add_of_lt (Nat.lt_of_not_le filling)
      have rest : (snapshotSize + extra + 1) % snapshotSize = extra + 1 := by
        rw [Nat.add_assoc, Nat.add_mod_left, Nat.mod_eq_of_lt (by omega)]
      rw [rest, Nat.add_assoc, slots_ascend_middle snapshotSize (extra + 1) (by omega)]
      omega

theorem times_ordered_iff (snapshotSize : Nat) (samples : List α) (times : List Nat) (positive : 1 ≤ snapshotSize)
    (size : times.length = min samples.length snapshotSize)
    (slots : ∀ slot < min samples.length snapshotSize,
      times[slot]? = some (slotSample snapshotSize samples.length slot - 1)) :
    times.Pairwise (· < ·) ↔ samples.length ≤ snapshotSize ∨ snapshotSize ∣ samples.length + 1 := by
  have number (slot : Nat) (inRange : slot < times.length) :
      times[slot] + 1 = slotSample snapshotSize samples.length slot := by
    have bounds := slot_sample_bounds snapshotSize samples.length slot (size ▸ inRange)
    have taken := slots slot (size ▸ inRange)
    rw [List.getElem?_eq_getElem inRange, Option.some.injEq] at taken
    omega
  rw [← slots_ascend_iff snapshotSize samples.length positive, List.pairwise_iff_getElem, ← size]
  constructor
  · intro ordered first second before inRange
    have step := ordered first second (Nat.lt_trans before inRange) inRange before
    rw [← number first (Nat.lt_trans before inRange), ← number second inRange]
    exact Nat.succ_lt_succ step
  · intro ascend first second firstRange secondRange before
    have step := ascend first second before secondRange
    rw [← number first firstRange, ← number second secondRange] at step
    exact Nat.lt_of_succ_lt_succ step

theorem series_repeats {β : Type} (snapshotSize : Nat) (samples : List Snapshot) (sampler : Sampler Snapshot)
    (times : List Nat) (field : Snapshot → β) (sampled : Sampled snapshotSize samples sampler)
    (size : times.length = min samples.length snapshotSize)
    (slots : ∀ slot < min samples.length snapshotSize,
      times[slot]? = some (slotSample snapshotSize samples.length slot - 1)) :
    Repeats samples times field (series sampler.snapshots field) := by
  have length := sampled.size
  refine ⟨by rw [series, length, size], ?_⟩
  apply List.ext_getElem?
  intro slot
  simp only [series, List.map_map, List.getElem?_map]
  by_cases inRange : slot < min samples.length snapshotSize
  · obtain ⟨lower, upper⟩ := slot_sample_bounds snapshotSize samples.length slot inRange
    have read := List.getElem?_eq_getElem (show slotSample snapshotSize samples.length slot - 1 < samples.length by omega)
    rw [sampled.slots slot inRange, slots slot inRange, Option.map_some, read]
    rfl
  · rw [List.getElem?_eq_none (by omega), List.getElem?_eq_none (by omega)]
    rfl

theorem counter_series_ascends (samples : List Snapshot) (times : List Nat) (field : Snapshot → Counter)
    (series : Series Counter) (repeated : Repeats samples times field series) (ordered : times.Pairwise (· < ·))
    (ascends : samples.Pairwise fun earlier later => (field earlier).int ≤ (field later).int) :
    series.y.Pairwise fun earlier later => earlier.int ≤ later.int := by
  have size := congrArg List.length repeated.values
  simp only [List.length_map] at size
  have taken (slot : Nat) (inRange : slot < series.y.length) :
      ∃ bound : times[slot] < samples.length, series.y[slot] = field samples[times[slot]] := by
    have value := congrArg (fun values => values[slot]?) repeated.values
    simp only [List.getElem?_map, List.getElem?_eq_getElem inRange, List.getElem?_eq_getElem (size ▸ inRange),
      Option.map_some, Option.some.injEq] at value
    obtain ⟨snapshot, found, same⟩ := Option.map_eq_some_iff.mp value.symm
    obtain ⟨bound, read⟩ := List.getElem?_eq_some_iff.mp found
    exact ⟨bound, by rw [read, same]⟩
  rw [List.pairwise_iff_getElem] at ordered ascends ⊢
  intro first second firstRange secondRange before
  obtain ⟨firstBound, firstValue⟩ := taken first firstRange
  obtain ⟨secondBound, secondValue⟩ := taken second secondRange
  rw [firstValue, secondValue]
  exact ascends _ _ firstBound secondBound (ordered first second (size ▸ firstRange) (size ▸ secondRange) before)

theorem series_in_order_iff (snapshotSize cpuCores : Nat) (samples : List Snapshot) (positive : 1 ≤ snapshotSize)
    (taken : 1 ≤ samples.length) :
    ∃ times report, sampleTimes snapshotSize samples = some times ∧
      processMessage snapshotSize cpuCores samples = some report ∧
      (SeriesInOrder samples times report.jsonData ↔
        samples.length ≤ snapshotSize ∨ snapshotSize ∣ samples.length + 1) ∧
      (SeriesInOrder samples times report.jsonData → ∀ field series, Repeats samples times field series →
        (samples.Pairwise fun earlier later => (field earlier).int ≤ (field later).int) →
          series.y.Pairwise fun earlier later : Counter => earlier.int ≤ later.int) := by
  obtain ⟨times, timed, size, slots⟩ := sample_times_slots snapshotSize samples positive
  obtain ⟨sampler, first, last, report, _, sampled, _, _, made, reported, _⟩ :=
    process_message_completes snapshotSize cpuCores samples positive taken
  refine ⟨times, report, timed, reported, ?_, ?_⟩
  · rw [← times_ordered_iff snapshotSize samples times positive size slots]
    refine ⟨SeriesInOrder.ordered, ?_⟩
    intro ordered
    have repeats {β : Type} (field : Snapshot → β) : Repeats samples times field (series sampler.snapshots field) :=
      series_repeats snapshotSize samples sampler times field sampled size slots
    rw [report_data _ _ _ _ report made]
    exact ⟨repeats _, repeats _, repeats _, repeats _, repeats _, repeats _, ordered⟩
  · intro inOrder field series repeated
    exact counter_series_ascends samples times field series repeated inOrder.ordered

def threeSamples : List Snapshot := [idleSnapshot fivePackets, idleSnapshot fivePackets, idleSnapshot ninePackets]

theorem three_samples_in_order :
    ∃ times report, sampleTimes 2 threeSamples = some times ∧ processMessage 2 4 threeSamples = some report ∧
      SeriesInOrder threeSamples times report.jsonData := by
  obtain ⟨times, report, timed, reported, inOrder, _⟩ := series_in_order_iff 2 4 threeSamples (by decide) (by decide)
  exact ⟨times, report, timed, reported, inOrder.mpr (.inr (by decide))⟩

def fourSamples : List Snapshot := idleSnapshot fivePackets :: threeSamples

-- The counters of the run never decrease, those of the series do.
theorem fourth_sample_out_of_order :
    (¬ ∃ times report, sampleTimes 3 fourSamples = some times ∧ processMessage 3 4 fourSamples = some report ∧
      SeriesInOrder fourSamples times report.jsonData) ∧
      (processMessage 3 4 fourSamples).map (fun report => report.jsonData.udpPacketsSent.y) =
        some [fivePackets, ninePackets, fivePackets] := by
  refine ⟨?_, rfl⟩
  intro reported
  obtain ⟨times, report, timed, _, inOrder⟩ := reported
  have slots : sampleTimes 3 fourSamples = some [0, 3, 2] := rfl
  have same : [0, 3, 2] = times := Option.some.inj (slots.symm.trans timed)
  subst same
  exact absurd inOrder.ordered (by decide)

end AppFit.Agent
