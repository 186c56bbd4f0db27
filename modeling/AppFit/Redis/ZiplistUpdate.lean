import AppFit.Redis.ZiplistLayout

/- Inserting into a ziplist and deleting from it: the entries behind the place of
   change get the new length of the one before them, which may make them longer in
   turn. No step reads or writes outside the block. -/
set_option autoImplicit false

namespace AppFit.Redis

open AppFit.Memory

def entryBytes (entry : Entry) (prev : Nat) : Bytes := prevField entry.wide prev ++ zipEncode entry.value

@[simp] theorem entry_bytes_length (entry : Entry) (prev : Nat) : (entryBytes entry prev).length = entry.size := by
  rw [entryBytes, List.length_append, field_length, Entry.size]

theorem layout_cons (prev : Nat) (entry : Entry) (rest : List Entry) :
    layout prev (entry :: rest) = entryBytes entry prev ++ layout entry.size rest := rfl

-- What the entries can take at most.
def capacity (values : List Bytes) : Nat := (values.map fun value => 5 + (zipEncode value).length).sum

theorem capacity_cons (value : Bytes) (rest : List Bytes) :
    capacity (value :: rest) = 5 + (zipEncode value).length + capacity rest := by
  rw [capacity, List.map_cons, List.sum_cons, capacity]

theorem size_le (entry : Entry) : entry.size ≤ 5 + (zipEncode entry.value).length := by
  rw [Entry.size, fieldSize]
  split <;> omega

theorem layout_le (prev : Nat) (entries : List Entry) :
    (layout prev entries).length ≤ capacity (entries.map Entry.value) := by
  induction entries generalizing prev with
  | nil => exact Nat.le_refl _
  | cons entry rest ih =>
      have size := size_le entry
      have later := ih entry.size
      rw [layout_cons, List.length_append, entry_bytes_length, List.map_cons, capacity_cons]
      omega

theorem value_short (value : Bytes) (bound : (zipEncode value).length < 2 ^ 32) : value.length < 2 ^ 32 := by
  rw [zipEncode] at bound
  cases encoded : zipTryEncoding value with
  | none =>
      rw [encoded] at bound
      simp only [List.length_append] at bound
      omega
  | some pair =>
      rw [zipTryEncoding] at encoded
      split at encoded
      · cases encoded
      · rename_i few
        omega

section Blocks

variable (tail length : Nat)

theorem store_end (content bytes : Bytes) (offset : Nat) (whole : offset + bytes.length = content.length) :
    store (assembled tail length content) (10 + offset) bytes =
      some (assembled tail length (content.take offset ++ bytes)) := by
  have stored := store_content tail length (content.take offset) (content.drop offset) [] bytes
    (by rw [List.length_drop]; omega)
  have place : (content.take offset).length = offset := by
    rw [List.length_take]
    omega
  rwa [place, List.append_nil, List.append_nil, List.take_append_drop] at stored

theorem end_here (content : Bytes) : (assembled tail length content)[10 + content.length]? = some zipEnd := by
  have here := byte_here (header (content.length + 11) tail length ++ content) [] zipEnd
  rwa [behind_header, List.append_assoc] at here

-- An entry in a block, seen from the beginning of the block.
theorem assembled_standing (front back : Bytes) (entry : Entry) (prev : Nat) :
    ∃ start : Bytes, start.length = 10 + front.length ∧
      assembled tail length (front ++ entryBytes entry prev ++ back) = standing start (back ++ [zipEnd]) entry prev := by
  refine ⟨header ((front ++ entryBytes entry prev ++ back).length + 11) tail length ++ front, behind_header _ _ _ _, ?_⟩
  rw [assembled, standing, entryBytes]
  simp only [List.append_assoc]

variable (front back : Bytes) (entry : Entry) (prev : Nat) (fits : entry.wide = false → prev < 254)
  (short : entry.value.length < 2 ^ 32)

include fits in
theorem block_start : ∃ first,
    (assembled tail length (front ++ entryBytes entry prev ++ back))[10 + front.length]? = some first ∧ first ≠ zipEnd := by
  obtain ⟨start, place, shape⟩ := assembled_standing tail length front back entry prev
  rw [shape, ← place]
  exact standing_start start _ entry prev fits

include fits in
theorem block_prev_size :
    zipDecodePrevLenSize (assembled tail length (front ++ entryBytes entry prev ++ back)) (10 + front.length) =
      some (fieldSize entry.wide) := by
  obtain ⟨start, place, shape⟩ := assembled_standing tail length front back entry prev
  rw [shape, ← place]
  exact standing_prev_size start _ entry prev fits

include fits in
theorem block_prev (bound : prev < 2 ^ 32) :
    zipDecodePrevLen (assembled tail length (front ++ entryBytes entry prev ++ back)) (10 + front.length) =
      some (fieldSize entry.wide, prev) := by
  obtain ⟨start, place, shape⟩ := assembled_standing tail length front back entry prev
  have decoded := decode_prev start (zipEncode entry.value ++ (back ++ [zipEnd])) entry.wide prev fits bound
  rw [shape, standing_value, ← place, ← decoded, List.append_assoc _ (zipEncode entry.value)]

include fits short in
theorem block_raw_length :
    zipRawEntryLength (assembled tail length (front ++ entryBytes entry prev ++ back)) (10 + front.length) =
      some entry.size := by
  obtain ⟨start, place, shape⟩ := assembled_standing tail length front back entry prev
  rw [shape, ← place]
  exact raw_entry_length start _ entry prev fits short

include fits short in
theorem block_entry (bound : prev < 2 ^ 32) : ∃ found,
    zipEntry (assembled tail length (front ++ entryBytes entry prev ++ back)) (10 + front.length) = some found ∧
      found.prevrawlensize = fieldSize entry.wide ∧ found.prevrawlen = prev ∧
      found.headersize + found.len = entry.size := by
  obtain ⟨start, place, shape⟩ := assembled_standing tail length front back entry prev
  obtain ⟨found, decoded, field, stored, size, _⟩ := zip_entry start (back ++ [zipEnd]) entry prev fits short bound
  rw [shape, ← place]
  exact ⟨found, decoded, field, stored, size⟩

include fits short in
theorem block_get (bound : prev < 2 ^ 32) : ∃ element,
    ziplistGet (assembled tail length (front ++ entryBytes entry prev ++ back)) (10 + front.length) = some (some element) ∧
      element.bytes = some entry.value := by
  obtain ⟨start, place, shape⟩ := assembled_standing tail length front back entry prev
  rw [shape, ← place]
  exact get_entry start _ entry prev fits short bound

end Blocks

-- Where the last entry begins, counted from the first of them.
def lastStart (entry : Entry) : List Entry → Nat
  | [] => 0
  | next :: rest => entry.size + lastStart next rest

def widened (entry : Entry) : Entry := ⟨true, entry.value⟩

-- The entries behind one whose size is no longer the one that the first of them holds.
def cascaded (stale size : Nat) : List Entry → List Entry
  | [] => []
  | next :: rest =>
      if stale = size then next :: rest
      else if next.wide = false ∧ 254 ≤ size then widened next :: cascaded next.size (widened next).size rest
      else next :: rest

theorem widened_size (entry : Entry) (narrow : entry.wide = false) : (widened entry).size = entry.size + 4 := by
  rw [Entry.size, Entry.size, narrow]
  change 5 + (zipEncode entry.value).length = 1 + (zipEncode entry.value).length + 4
  omega

theorem encode_le_size (entry : Entry) : (zipEncode entry.value).length ≤ entry.size := Nat.le_add_left _ _

theorem field_exact (wide : Bool) (size : Nat) (exactly : fieldSize wide = zipPrevEncodeSize size) :
    zipPrevEncodeLength size = prevField wide size := by
  rw [zipPrevEncodeLength, prevField]
  rw [fieldSize, zipPrevEncodeSize] at exactly
  split at exactly
  · split at exactly
    · cases exactly
    · rename_i wide large
      rw [if_neg large, if_pos wide]
  · split at exactly
    · rename_i narrow small
      rw [if_pos small, if_neg narrow]
    · cases exactly

theorem size_pos (entry : Entry) : 0 < entry.size := by
  rw [Entry.size, fieldSize]
  split <;> omega

theorem last_start_le (entry : Entry) (rest : List Entry) :
    lastStart entry rest ≤ entry.size + capacity (rest.map Entry.value) := by
  induction rest generalizing entry with
  | nil => exact Nat.zero_le _
  | cons next rest ih =>
      have later := ih next
      have size := size_le next
      rw [lastStart, List.map_cons, capacity_cons]
      omega

theorem last_start_widened (place : Nat) (next : Entry) (rest : List Entry) (narrow : next.wide = false) :
    (if place + lastStart next rest ≠ place then place + lastStart next rest + 4 else place + lastStart next rest) =
      place + lastStart (widened next) rest := by
  cases rest with
  | nil => rw [if_neg (by simp [lastStart]), lastStart, lastStart]
  | cons other rest =>
      have positive := size_pos next
      rw [lastStart, lastStart, widened_size next narrow, if_pos (by omega)]
      omega

section Cascade

variable (junk : Bytes → Nat → UInt8)

theorem field_size_exact (size : Nat) : fieldSize (decide (254 ≤ size)) = zipPrevEncodeSize size := by
  rw [fieldSize, zipPrevEncodeSize]
  rcases Nat.lt_or_ge size 254 with small | large
  · rw [if_pos small, if_neg (by simpa using small)]
  · rw [if_neg (Nat.not_lt.mpr large), if_pos (by simpa using large)]

theorem field_grows (wide : Bool) (size : Nat) :
    fieldSize wide < zipPrevEncodeSize size ↔ wide = false ∧ 254 ≤ size := by
  rw [fieldSize, zipPrevEncodeSize]
  cases wide with
  | true =>
      rw [if_pos rfl]
      split <;> simp
  | false =>
      rw [if_neg Bool.false_ne_true]
      split <;> simp <;> omega

-- What is written into a field that is large enough.
theorem field_kept (wide : Bool) (size : Nat) (enough : ¬(wide = false ∧ 254 ≤ size)) :
    (if zipPrevEncodeSize size < fieldSize wide then zipPrevEncodeLengthForceLarge size else zipPrevEncodeLength size) =
      prevField wide size := by
  have atLeast := Nat.not_lt.mp (mt (field_grows wide size).mp enough)
  split
  · rename_i larger
    cases wide with
    | true => rfl
    | false =>
        rw [fieldSize, if_neg Bool.false_ne_true, zipPrevEncodeSize] at larger
        split at larger <;> omega
  · exact field_exact wide size (by omega)

-- Longer bytes in the place of old ones, with what is behind them moved to the end.
theorem shift_block (tail length : Nat) (front old back fresh bytes : Bytes)
    (longer : bytes.length = old.length + fresh.length) :
    ∃ moved, memmove (assembled tail length (front ++ old ++ back ++ fresh)) (10 + front.length + bytes.length)
        (10 + front.length + old.length) back.length = some (assembled tail length moved) ∧
      store (assembled tail length moved) (10 + front.length) bytes =
        some (assembled tail length (front ++ bytes ++ back)) := by
  have loaded := load_content tail length (front ++ old) back fresh
  have stored := store_end tail length (front ++ old ++ back ++ fresh) back (front.length + bytes.length)
    (by simp only [List.length_append]; omega)
  have kept : (front ++ old ++ back ++ fresh).take (front.length + bytes.length) =
      front ++ (old ++ back ++ fresh).take bytes.length := by
    rw [List.append_assoc, List.append_assoc, List.take_append, List.take_of_length_le (Nat.le_add_right _ _),
      Nat.add_sub_cancel_left, List.append_assoc]
  rw [kept, ← Nat.add_assoc] at stored
  rw [List.length_append, ← Nat.add_assoc] at loaded
  refine ⟨_, by rw [memmove, loaded, Option.bind_some, stored], ?_⟩
  refine store_content tail length front _ back bytes ?_
  rw [List.length_take]
  simp only [List.length_append]
  omega

-- The entry gets four bytes more for its field.
theorem grow_field (tail length : Nat) (front back : Bytes) (next : Entry) (stale size : Nat) (narrow : next.wide = false)
    (large : 254 ≤ size) (bound : tail < 2 ^ 32) :
    growField junk (assembled tail length (front ++ entryBytes next stale ++ back)) (10 + front.length)
        ((front ++ entryBytes next stale ++ back).length + 11) 1 size =
      some (assembled (if tail ≠ 10 + front.length then tail + 4 else tail) length
        (front ++ entryBytes (widened next) size ++ back)) := by
  have five : zipPrevEncodeSize size = 5 := if_neg (Nat.not_lt.mpr large)
  have field : zipPrevEncodeLength size = prevField true size := field_exact true size five.symm
  obtain ⟨fresh, four, _, grown⟩ := resize_grown tail length (front ++ entryBytes next stale ++ back) junk 4
  let offset := if tail ≠ 10 + front.length then tail + 4 else tail
  obtain ⟨moved, moves, written⟩ := shift_block offset length front (prevField next.wide stale)
    (zipEncode next.value ++ back) fresh (prevField true size) (by rw [field_length, field_length, narrow, four]; rfl)
  have shape : front ++ prevField next.wide stale ++ (zipEncode next.value ++ back) ++ fresh =
      front ++ entryBytes next stale ++ back ++ fresh := by
    rw [entryBytes]
    simp only [List.append_assoc]
  have count : (front ++ entryBytes next stale ++ back).length + 11 - (10 + front.length) - 1 - 1 =
      (zipEncode next.value ++ back).length := by
    rw [entryBytes]
    simp only [List.length_append, field_length, narrow, fieldSize, Bool.false_eq_true, if_false]
    omega
  rw [shape, field_length, field_length, narrow] at moves
  rw [growField, five]
  simp only [Option.bind_eq_bind, Option.bind_some, grown, assembled_tail tail length _ bound, move_tail_assembled, count,
    decide_eq_true_eq]
  refine (congrArg (Option.bind · _) moves).trans ?_
  rw [Option.bind_some, field, written, entryBytes, widened]
  simp only [List.append_assoc, offset]

theorem keep_field (tail length : Nat) (front back : Bytes) (next : Entry) (stale size : Nat)
    (enough : ¬(next.wide = false ∧ 254 ≤ size)) :
    (if zipPrevEncodeSize size < fieldSize next.wide then
        store (assembled tail length (front ++ entryBytes next stale ++ back)) (10 + front.length)
          (zipPrevEncodeLengthForceLarge size)
      else
        store (assembled tail length (front ++ entryBytes next stale ++ back)) (10 + front.length)
          (zipPrevEncodeLength size)) =
      some (assembled tail length (front ++ entryBytes next size ++ back)) := by
  have stored := store_content tail length front (prevField next.wide stale) (zipEncode next.value ++ back)
    (prevField next.wide size) (by rw [field_length, field_length])
  rw [← apply_ite (store (assembled tail length (front ++ entryBytes next stale ++ back)) (10 + front.length)),
    field_kept next.wide size enough, entryBytes, entryBytes]
  simp only [List.append_assoc] at stored ⊢
  exact stored

theorem cascade_loop (passes : Nat) (front : Bytes) (cur : Entry) (prev stale : Nat) (rest : List Entry) (length : Nat)
    (enough : rest.length < passes) (fits : cur.wide = false → prev < 254) (bound : prev < 2 ^ 32)
    (restFits : Fitting stale rest) (staleBound : stale < 2 ^ 32)
    (room : front.length + cur.size + capacity (rest.map Entry.value) + 11 < 2 ^ 32) :
    cascadeLoop junk passes
        (assembled (10 + front.length + lastStart cur rest) length (front ++ entryBytes cur prev ++ layout stale rest))
        (10 + front.length) ((front ++ entryBytes cur prev ++ layout stale rest).length + 11) =
      some (assembled (10 + front.length + lastStart cur (cascaded stale cur.size rest)) length
        (front ++ entryBytes cur prev ++ layout cur.size (cascaded stale cur.size rest))) := by
  -- One pass: either it ends the loop, or the next entry has grown and is the
  -- current one of the next pass.
  induction passes generalizing front cur prev stale rest with
  | zero => exact absurd enough (Nat.not_lt_zero _)
  | succ passes ih =>
      have short := value_short cur.value (Nat.lt_of_le_of_lt (encode_le_size cur) (by omega))
      obtain ⟨first, here, other⟩ := block_start (10 + front.length + lastStart cur rest) length front (layout stale rest)
        cur prev fits
      obtain ⟨found, decoded, _, _, size⟩ := block_entry (10 + front.length + lastStart cur rest) length front
        (layout stale rest) cur prev fits short bound
      rw [cascadeLoop]
      simp only [here, decoded, Option.bind_eq_bind, Option.bind_some, if_neg other, size]
      cases rest with
      | nil =>
          have ended := end_here (10 + front.length + lastStart cur []) length (front ++ entryBytes cur prev)
          rw [List.length_append, entry_bytes_length, ← Nat.add_assoc] at ended
          simp only [layout, List.append_nil, ended, Option.bind_some, if_true, cascaded]
      | cons next rest =>
          obtain ⟨nextFits, laterFit⟩ := restFits
          rw [List.map_cons, capacity_cons] at room
          have nextShort := value_short next.value (by omega)
          have place : 10 + front.length + cur.size = 10 + (front ++ entryBytes cur prev).length := by
            rw [List.length_append, entry_bytes_length, Nat.add_assoc]
          obtain ⟨byte, following, going⟩ := block_start (10 + front.length + lastStart cur (next :: rest)) length
            (front ++ entryBytes cur prev) (layout next.size rest) next stale nextFits
          obtain ⟨nextFound, nextDecoded, field, stored, _⟩ := block_entry
            (10 + front.length + lastStart cur (next :: rest)) length (front ++ entryBytes cur prev)
            (layout next.size rest) next stale nextFits nextShort staleBound
          rw [← place, List.append_assoc _ (entryBytes next stale), ← layout_cons] at following nextDecoded
          simp only [following, nextDecoded, Option.bind_some, if_neg going, field, stored]
          rw [cascaded]
          by_cases same : stale = cur.size
          · rw [if_pos same, if_pos same, same]
          · rw [if_neg same, if_neg same]
            by_cases grows : next.wide = false ∧ 254 ≤ cur.size
            · rw [if_pos ((field_grows _ _).mpr grows), if_pos grows]
              have five : zipPrevEncodeSize cur.size = 5 := if_neg (Nat.not_lt.mpr grows.2)
              have one : fieldSize next.wide = 1 := by rw [grows.1]; rfl
              have larger := widened_size next grows.1
              have most : (widened next).size ≤ 5 + (zipEncode next.value).length := size_le (widened next)
              have start := last_start_le next rest
              have grown := grow_field junk (10 + front.length + lastStart cur (next :: rest)) length
                (front ++ entryBytes cur prev) (layout next.size rest) next stale cur.size grows.1 grows.2
                (by rw [lastStart]; omega)
              have tail := last_start_widened (10 + (front ++ entryBytes cur prev).length) next rest grows.1
              have later := ih (front ++ entryBytes cur prev) (widened next) cur.size next.size rest
                (Nat.lt_of_succ_lt_succ enough) (fun narrow => by cases narrow) (by omega) laterFit (by omega)
                (by rw [List.length_append, entry_bytes_length]; omega)
              have count : (front ++ entryBytes cur prev ++ layout stale (next :: rest)).length + 11 + (5 - 1) =
                  (front ++ entryBytes cur prev ++ entryBytes (widened next) cur.size ++ layout next.size rest).length + 11 := by
                rw [layout_cons]
                simp only [List.length_append, entry_bytes_length]
                omega
              rw [← place, List.append_assoc _ (entryBytes next stale), ← layout_cons] at grown
              rw [five, one, grown, Option.bind_some, count]
              rw [← place] at tail later
              rw [lastStart, ← Nat.add_assoc, tail, later, layout_cons, lastStart]
              simp only [List.append_assoc, Nat.add_assoc]
            · have kept := keep_field (10 + front.length + lastStart cur (next :: rest)) length
                (front ++ entryBytes cur prev) (layout next.size rest) next stale cur.size grows
              rw [← place, List.append_assoc _ (entryBytes next stale), ← layout_cons,
                List.append_assoc _ (entryBytes next cur.size), ← layout_cons] at kept
              rw [if_neg (mt (field_grows _ _).mp grows), if_neg grows]
              exact kept

theorem entries_le_layout (prev : Nat) (entries : List Entry) : entries.length ≤ (layout prev entries).length := by
  induction entries generalizing prev with
  | nil => exact Nat.le_refl _
  | cons entry rest ih =>
      have positive := size_pos entry
      have later := ih entry.size
      rw [layout_cons, List.length_append, entry_bytes_length, List.length_cons]
      omega

theorem cascade_update (front : Bytes) (cur : Entry) (prev stale : Nat) (rest : List Entry) (length : Nat)
    (fits : cur.wide = false → prev < 254) (bound : prev < 2 ^ 32) (restFits : Fitting stale rest)
    (staleBound : stale < 2 ^ 32) (room : front.length + cur.size + capacity (rest.map Entry.value) + 11 < 2 ^ 32) :
    ziplistCascadeUpdate junk
        (assembled (10 + front.length + lastStart cur rest) length (front ++ entryBytes cur prev ++ layout stale rest))
        (10 + front.length) =
      some (assembled (10 + front.length + lastStart cur (cascaded stale cur.size rest)) length
        (front ++ entryBytes cur prev ++ layout cur.size (cascaded stale cur.size rest))) := by
  have most := layout_le stale rest
  have least := entries_le_layout stale rest
  have bytes := assembled_bytes (10 + front.length + lastStart cur rest) length
    (front ++ entryBytes cur prev ++ layout stale rest) (by simp only [List.length_append, entry_bytes_length]; omega)
  rw [ziplistCascadeUpdate, bytes]
  simp only [Option.bind_eq_bind, Option.bind_some]
  refine cascade_loop junk _ front cur prev stale rest length ?_ fits bound restFits staleBound room
  rw [assembled_length, List.length_append]
  omega

end Cascade

theorem cascaded_values (stale size : Nat) (rest : List Entry) :
    (cascaded stale size rest).map Entry.value = rest.map Entry.value := by
  induction rest generalizing stale size with
  | nil => rfl
  | cons next rest ih =>
      rw [cascaded]
      split
      · rfl
      · split
        · rw [List.map_cons, ih, List.map_cons, widened]
        · rfl

theorem cascaded_fits (stale size : Nat) (rest : List Entry) (fits : Fitting stale rest) :
    Fitting size (cascaded stale size rest) := by
  induction rest generalizing stale size with
  | nil => trivial
  | cons next rest ih =>
      obtain ⟨here, later⟩ := fits
      rw [cascaded]
      split
      · rename_i same
        exact same ▸ ⟨here, later⟩
      · split
        · exact ⟨fun narrow => (Bool.noConfusion narrow), ih _ _ later⟩
        · rename_i stays
          exact ⟨fun narrow => Nat.not_le.mp fun large => stays ⟨narrow, large⟩, later⟩

theorem cascaded_same (size : Nat) (rest : List Entry) : cascaded size size rest = rest := by
  cases rest with
  | nil => rfl
  | cons next rest => rw [cascaded, if_pos rfl]

def lastSize (prev : Nat) : List Entry → Nat
  | [] => prev
  | entry :: rest => lastSize entry.size rest

theorem last_size_append (prev : Nat) (before after : List Entry) :
    lastSize prev (before ++ after) = lastSize (lastSize prev before) after := by
  induction before generalizing prev with
  | nil => rfl
  | cons entry rest ih => exact ih entry.size

theorem layout_append (prev : Nat) (before after : List Entry) :
    layout prev (before ++ after) = layout prev before ++ layout (lastSize prev before) after := by
  induction before generalizing prev with
  | nil => rfl
  | cons entry rest ih =>
      rw [List.cons_append, layout_cons, layout_cons, ih, List.append_assoc]
      rfl

theorem fitting_append (prev : Nat) (before after : List Entry) :
    Fitting prev (before ++ after) ↔ Fitting prev before ∧ Fitting (lastSize prev before) after := by
  induction before generalizing prev with
  | nil => exact ⟨fun fits => ⟨trivial, fits⟩, fun both => both.2⟩
  | cons entry rest ih =>
      rw [List.cons_append, Fitting, Fitting, ih, and_assoc]
      rfl

theorem capacity_append (before after : List Bytes) : capacity (before ++ after) = capacity before + capacity after := by
  rw [capacity, List.map_append, List.sum_append, capacity, capacity]

def tailStart : List Entry → Nat
  | [] => 0
  | entry :: rest => lastStart entry rest

theorem tail_start_append (before : List Entry) (entry : Entry) (after : List Entry) :
    tailStart (before ++ entry :: after) = (layout 0 before).length + lastStart entry after := by
  have along (first : Entry) (rest : List Entry) :
      lastStart first (rest ++ entry :: after) = first.size + (layout first.size rest).length + lastStart entry after := by
    induction rest generalizing first with
    | nil => rfl
    | cons next rest ih =>
        rw [List.cons_append, lastStart, ih, layout_cons, List.length_append, entry_bytes_length]
        omega
  cases before with
  | nil => exact (Nat.zero_add _).symm
  | cons first rest => rw [List.cons_append, tailStart, along, layout_cons, List.length_append, entry_bytes_length]

theorem last_size_le (prev : Nat) (entries : List Entry) :
    lastSize prev entries ≤ prev + (layout prev entries).length := by
  induction entries generalizing prev with
  | nil => exact Nat.le_add_right _ _
  | cons entry rest ih =>
      have later := ih entry.size
      rw [lastSize, layout_cons, List.length_append, entry_bytes_length]
      omega

-- The block of a ziplist. The count is right or given up, the first entry has
-- nothing before it, and even with all fields wide it stays below 4 GiB.
structure Represents (zl : Bytes) (entries : List Entry) (length : Nat) : Prop where
  block : zl = assembled (10 + tailStart entries) length (layout 0 entries)
  fitting : Fitting 0 entries
  narrow : ∀ first rest, entries = first :: rest → first.wide = false
  room : capacity (entries.map Entry.value) + 11 < 2 ^ 32
  counted : length = entries.length ∧ length < 65535 ∨ length = 65535

end AppFit.Redis
