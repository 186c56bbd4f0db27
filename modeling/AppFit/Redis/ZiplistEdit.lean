import AppFit.Redis.ZiplistUpdate

/- __ziplistInsert and __ziplistDelete on a block that represents a list of entries:
   the block that they leave represents the list with the entry inserted, or with the
   entries deleted. -/
set_option autoImplicit false

namespace AppFit.Redis

open AppFit.Memory

-- The entry behind a place of change, with a field that is just large enough.
def refitted (size : Nat) (next : Entry) : Entry := ⟨decide (254 ≤ size), next.value⟩

theorem refitted_size (size : Nat) (next : Entry) :
    (refitted size next).size + fieldSize next.wide = next.size + zipPrevEncodeSize size := by
  have whole : (refitted size next).size = fieldSize (decide (254 ≤ size)) + (zipEncode next.value).length := rfl
  rw [← field_size_exact, whole, Entry.size]
  omega

theorem refitted_fits (size : Nat) (next : Entry) : (refitted size next).wide = false → size < 254 := by
  rw [refitted, decide_eq_false_iff_not]
  exact Nat.not_le.mp

theorem refitted_bytes (size : Nat) (next : Entry) :
    entryBytes (refitted size next) size = zipPrevEncodeLength size ++ zipEncode next.value := by
  rw [entryBytes, refitted, field_exact (decide (254 ≤ size)) size (field_size_exact size)]

theorem encode_size_le (size : Nat) : zipPrevEncodeSize size ≤ 5 := by
  rw [zipPrevEncodeSize]
  split <;> omega

theorem encode_length (size : Nat) : (zipPrevEncodeLength size).length = zipPrevEncodeSize size := by
  rw [field_exact (decide (254 ≤ size)) size (field_size_exact size), field_length, field_size_exact]

-- The entries behind a place of change.
def refittedAll (size : Nat) : List Entry → List Entry
  | [] => []
  | next :: rest => refitted size next :: cascaded next.size (refitted size next).size rest

theorem refitted_all_values (size : Nat) (entries : List Entry) :
    (refittedAll size entries).map Entry.value = entries.map Entry.value := by
  cases entries with
  | nil => rfl
  | cons next rest => rw [refittedAll, List.map_cons, cascaded_values, List.map_cons, refitted]

theorem refitted_all_fits (prev size : Nat) (entries : List Entry) (fits : Fitting prev entries) :
    Fitting size (refittedAll size entries) := by
  cases entries with
  | nil => trivial
  | cons next rest => exact ⟨refitted_fits size next, cascaded_fits _ _ rest fits.2⟩

section Insert

variable (junk : Bytes → Nat → UInt8)

theorem start_or_end (tail length : Nat) (front : Bytes) (prev : Nat) (rest : List Entry) (fits : Fitting prev rest) :
    ∃ first, (assembled tail length (front ++ layout prev rest))[10 + front.length]? = some first ∧
      (first = zipEnd ↔ rest = []) := by
  cases rest with
  | nil =>
      rw [layout, List.append_nil]
      exact ⟨zipEnd, end_here tail length front, ⟨fun _ => rfl, fun _ => rfl⟩⟩
  | cons next rest =>
      obtain ⟨first, here, other⟩ := block_start tail length front (layout next.size rest) next prev fits.1
      rw [layout_cons, ← List.append_assoc]
      exact ⟨first, here, ⟨fun same => absurd same other, fun empty => by cases empty⟩⟩

-- The rest of the list is moved behind the free bytes.
theorem room_moved (tail length : Nat) (front back fresh : Bytes) (next : Entry) (prev reqlen : Nat)
    (size : fresh.length + fieldSize next.wide = reqlen + zipPrevEncodeSize reqlen) :
    ∃ gap moved : Bytes, gap.length = reqlen ∧
      memmove (assembled tail length (front ++ entryBytes next prev ++ back ++ fresh)) (10 + front.length + reqlen)
          (10 + front.length + fieldSize next.wide - zipPrevEncodeSize reqlen)
          (zipPrevEncodeSize reqlen + (zipEncode next.value ++ back).length) = some (assembled tail length moved) ∧
      store (assembled tail length moved) (10 + front.length + reqlen) (zipPrevEncodeLength reqlen) =
        some (assembled tail length (front ++ gap ++ entryBytes (refitted reqlen next) reqlen ++ back)) := by
  have five := encode_size_le reqlen
  have sizes : (front ++ entryBytes next prev ++ back ++ fresh).length =
      front.length + (fieldSize next.wide + (zipEncode next.value).length) + back.length + fresh.length := by
    simp only [List.length_append, entry_bytes_length, Entry.size]
  -- The bytes from the end of the old field on, and those that the new field will take.
  obtain ⟨taken, first⟩ := load_some (assembled tail length (front ++ entryBytes next prev ++ back ++ fresh))
    (10 + front.length + fieldSize next.wide - zipPrevEncodeSize reqlen) (zipPrevEncodeSize reqlen)
    (by rw [assembled_length, sizes]; omega)
  have second := load_content tail length (front ++ prevField next.wide prev) (zipEncode next.value ++ back) fresh
  have shape : front ++ prevField next.wide prev ++ (zipEncode next.value ++ back) ++ fresh =
      front ++ entryBytes next prev ++ back ++ fresh := by
    rw [entryBytes]
    simp only [List.append_assoc]
  have place : 10 + (front ++ prevField next.wide prev).length =
      10 + front.length + fieldSize next.wide - zipPrevEncodeSize reqlen + zipPrevEncodeSize reqlen := by
    rw [List.length_append, field_length]
    omega
  rw [shape, place] at second
  have both := load_parts _ _ _ _ _ _ first second
  have width := load_size _ _ _ _ first
  let gap := (entryBytes next prev ++ back ++ fresh).take reqlen
  have free : gap.length = reqlen := by
    rw [List.length_take, Nat.min_eq_left]
    simp only [List.length_append, entry_bytes_length, Entry.size]
    omega
  have kept : (front ++ entryBytes next prev ++ back ++ fresh).take (front.length + reqlen) = front ++ gap := by
    rw [List.append_assoc, List.append_assoc, List.take_append, List.take_of_length_le (Nat.le_add_right _ _),
      Nat.add_sub_cancel_left, ← List.append_assoc]
  have stored := store_end tail length (front ++ entryBytes next prev ++ back ++ fresh)
    (taken ++ (zipEncode next.value ++ back)) (front.length + reqlen)
    (by rw [sizes, List.length_append, List.length_append, width]; omega)
  rw [kept, ← Nat.add_assoc] at stored
  have written := store_content tail length (front ++ gap) taken (zipEncode next.value ++ back) (zipPrevEncodeLength reqlen)
    (by rw [encode_length, width])
  rw [List.length_append, free, ← Nat.add_assoc] at written
  refine ⟨gap, front ++ gap ++ taken ++ (zipEncode next.value ++ back), free, ?_, ?_⟩
  · rw [memmove, both, Option.bind_some, stored]
    simp only [List.append_assoc]
  · rw [written, refitted_bytes]
    simp only [List.append_assoc]

theorem last_start_refitted (place size : Nat) (next : Entry) (rest : List Entry) :
    (if rest = [] then place + lastStart next rest + size
      else ((place + lastStart next rest + size : Nat) + ((zipPrevEncodeSize size : Int) - fieldSize next.wide)).toNat) =
      place + size + lastStart (refitted size next) rest := by
  have resizes := refitted_size size next
  cases rest with
  | nil => rw [if_pos rfl, lastStart, lastStart, Nat.add_zero, Nat.add_zero]
  | cons other rest =>
      rw [if_neg (List.cons_ne_nil _ _), lastStart, lastStart]
      omega

theorem moved_back (tail length : Nat) (front fresh : Bytes) (next : Entry) (prev reqlen : Nat) (rest : List Entry)
    (later : Fitting next.size rest) (small : reqlen < 2 ^ 32) (short : next.value.length < 2 ^ 32) (bound : tail < 2 ^ 32)
    (size : fresh.length + fieldSize next.wide = reqlen + zipPrevEncodeSize reqlen) :
    ∃ gap : Bytes, gap.length = reqlen ∧
      moveBack (assembled tail length (front ++ entryBytes next prev ++ layout next.size rest ++ fresh))
          (10 + front.length) reqlen ((front ++ entryBytes next prev ++ layout next.size rest).length + 11)
          (zipPrevEncodeSize reqlen - fieldSize next.wide) =
        some (assembled (if rest = [] then tail + reqlen
            else ((tail + reqlen : Nat) + ((zipPrevEncodeSize reqlen : Int) - fieldSize next.wide)).toNat) length
          (front ++ gap ++ entryBytes (refitted reqlen next) reqlen ++ layout next.size rest)) := by
  have five := encode_size_le reqlen
  obtain ⟨gap, moved, free, moves, written⟩ := room_moved tail length front (layout next.size rest) fresh next prev reqlen
    size
  have source : (((10 + front.length : Nat) : Int) - (zipPrevEncodeSize reqlen - fieldSize next.wide)).toNat =
      10 + front.length + fieldSize next.wide - zipPrevEncodeSize reqlen := by omega
  have count : ((((front ++ entryBytes next prev ++ layout next.size rest).length + 11 : Nat) : Int) -
      ((10 + front.length : Nat) : Int) - 1 + (zipPrevEncodeSize reqlen - fieldSize next.wide)).toNat =
        zipPrevEncodeSize reqlen + (zipEncode next.value ++ layout next.size rest).length := by
    simp only [List.length_append, entry_bytes_length, Entry.size]
    omega
  have place : 10 + front.length + reqlen = 10 + (front ++ gap).length := by
    rw [List.length_append, free, Nat.add_assoc]
  obtain ⟨found, decoded, _, _, whole⟩ := block_entry (tail + reqlen) length (front ++ gap) (layout next.size rest)
    (refitted reqlen next) reqlen (refitted_fits reqlen next) short small
  obtain ⟨first, follows, ended⟩ := start_or_end (tail + reqlen) length
    (front ++ gap ++ entryBytes (refitted reqlen next) reqlen) next.size rest later
  rw [List.length_append, entry_bytes_length, ← Nat.add_assoc, ← place, ← whole, ← Nat.add_assoc] at follows
  rw [← place] at decoded
  refine ⟨gap, free, ?_⟩
  rw [moveBack, source, count, moves]
  simp only [Option.bind_eq_bind, Option.bind_some, written, assembled_tail tail length _ bound, set_tail_assembled,
    decoded, follows, move_tail_assembled, decide_eq_true_eq, ne_eq, ended, ite_not]

-- The entries behind the free bytes are put right whether or not a cascade is needed.
theorem cascade_if (length : Nat) (front : Bytes) (next : Entry) (size : Nat) (rest : List Entry)
    (later : Fitting next.size rest) (bound : size < 2 ^ 32) (nextBound : next.size < 2 ^ 32)
    (room : front.length + (refitted size next).size + capacity (rest.map Entry.value) + 11 < 2 ^ 32) :
    (if (zipPrevEncodeSize size : Int) - fieldSize next.wide ≠ 0 then
        ziplistCascadeUpdate junk (assembled (10 + front.length + lastStart (refitted size next) rest) length
          (front ++ entryBytes (refitted size next) size ++ layout next.size rest)) (10 + front.length)
      else some (assembled (10 + front.length + lastStart (refitted size next) rest) length
          (front ++ entryBytes (refitted size next) size ++ layout next.size rest))) =
      some (assembled (10 + front.length + lastStart (refitted size next)
          (cascaded next.size (refitted size next).size rest)) length
        (front ++ layout size (refittedAll size (next :: rest)))) := by
  have resizes := refitted_size size next
  rw [refittedAll, layout_cons, ← List.append_assoc]
  split
  · exact cascade_update junk front (refitted size next) size next.size rest length (refitted_fits size next) bound later
      nextBound room
  · have same : (refitted size next).size = next.size := by omega
    rw [same, cascaded_same]

theorem room_inside (length : Nat) (front : Bytes) (next : Entry) (prev reqlen : Nat) (rest : List Entry)
    (fits : next.wide = false → prev < 254) (later : Fitting next.size rest)
    (enough : fieldSize next.wide ≤ reqlen + zipPrevEncodeSize reqlen)
    (room : front.length + reqlen + capacity (next.value :: rest.map Entry.value) + 11 < 2 ^ 32) :
    ∃ gap : Bytes, gap.length = reqlen ∧
      makeRoom junk (assembled (10 + front.length + lastStart next rest) length (front ++ layout prev (next :: rest)))
          (10 + front.length) reqlen =
        some (assembled (10 + front.length + reqlen + lastStart (refitted reqlen next)
            (cascaded next.size (refitted reqlen next).size rest)) length
          (front ++ gap ++ layout reqlen (refittedAll reqlen (next :: rest)))) := by
  rw [capacity_cons] at room
  have most := layout_le next.size rest
  have nextMost := size_le next
  have newMost : (refitted reqlen next).size ≤ 5 + (zipEncode next.value).length := size_le (refitted reqlen next)
  have start := last_start_le next rest
  have short := value_short next.value (by omega)
  have sizes : (front ++ entryBytes next prev ++ layout next.size rest).length =
      front.length + next.size + (layout next.size rest).length := by
    simp only [List.length_append, entry_bytes_length]
  rw [layout_cons, ← List.append_assoc]
  generalize begins : 10 + front.length + lastStart next rest = tail
  obtain ⟨first, here, other⟩ := block_start tail length front (layout next.size rest) next prev fits
  have field := block_prev_size tail length front (layout next.size rest) next prev fits
  have bytes := assembled_bytes tail length (front ++ entryBytes next prev ++ layout next.size rest) (by omega)
  obtain ⟨fresh, more, _, grown⟩ := resize_grown tail length (front ++ entryBytes next prev ++ layout next.size rest) junk
    (reqlen + zipPrevEncodeSize reqlen - fieldSize next.wide)
  obtain ⟨firstAgain, again, otherAgain⟩ := block_start tail length front (layout next.size rest ++ fresh) next prev fits
  rw [← List.append_assoc] at again
  obtain ⟨gap, free, moves⟩ := moved_back tail length front fresh next prev reqlen rest later (by omega) short (by omega)
    (by omega)
  have resized : ((((front ++ entryBytes next prev ++ layout next.size rest).length + 11 : Nat) : Int) + reqlen +
      (zipPrevEncodeSize reqlen - fieldSize next.wide)).toNat =
        (front ++ entryBytes next prev ++ layout next.size rest).length + 11 +
          (reqlen + zipPrevEncodeSize reqlen - fieldSize next.wide) := by omega
  have cascade := cascade_if junk length (front ++ gap) next reqlen rest later (by omega) (by omega)
    (by rw [List.length_append]; omega)
  have place : 10 + (front ++ gap).length = 10 + front.length + reqlen := by
    rw [List.length_append, free, Nat.add_assoc]
  rw [place] at cascade
  refine ⟨gap, free, ?_⟩
  rw [makeRoom, bytes]
  simp only [Option.bind_eq_bind, Option.bind_some, here, field, if_pos other, resized, grown, again, if_pos otherAgain,
    moves]
  rw [← begins, last_start_refitted]
  exact cascade

theorem room_at_end (tail length reqlen : Nat) (content : Bytes) (room : content.length + 11 < 2 ^ 32) :
    ∃ gap : Bytes, gap.length = reqlen ∧
      makeRoom junk (assembled tail length content) (10 + content.length) reqlen =
        some (assembled (10 + content.length) length (content ++ gap)) := by
  obtain ⟨fresh, more, ⟨rest, begins⟩, grown⟩ := resize_grown tail length content junk reqlen
  have here := end_here tail length content
  have bytes := assembled_bytes tail length content room
  have field : zipDecodePrevLenSize (assembled tail length content) (10 + content.length) = some 5 := by
    rw [zipDecodePrevLenSize, here]
    rfl
  have again : (assembled tail length (content ++ fresh))[10 + content.length]? = some zipEnd := by
    have first := byte_here (header ((content ++ fresh).length + 11) tail length ++ content) rest zipEnd
    rwa [behind_header, ← begins, List.append_assoc, ← List.append_assoc content] at first
  have resized : (((content.length + 11 : Nat) : Int) + reqlen + 0).toNat = content.length + 11 + reqlen := by omega
  refine ⟨fresh, more, ?_⟩
  rw [makeRoom, bytes]
  simp only [Option.bind_eq_bind, Option.bind_some, here, field, ne_eq, not_true_eq_false, if_false, resized, grown, again,
    set_tail_assembled]

theorem prev_inside (tail length : Nat) (front : Bytes) (next : Entry) (prev : Nat) (rest : List Entry)
    (fits : next.wide = false → prev < 254) (bound : prev < 2 ^ 32) :
    insertPrevLen (assembled tail length (front ++ layout prev (next :: rest))) (10 + front.length) = some prev := by
  obtain ⟨first, here, other⟩ := block_start tail length front (layout next.size rest) next prev fits
  have field := block_prev tail length front (layout next.size rest) next prev fits bound
  rw [layout_cons, ← List.append_assoc, insertPrevLen, here]
  simp only [Option.bind_eq_bind, Option.bind_some, if_pos other, field]

theorem prev_at_end (length : Nat) (entries : List Entry) (fits : Fitting 0 entries)
    (room : capacity (entries.map Entry.value) + 11 < 2 ^ 32) :
    insertPrevLen (assembled (10 + tailStart entries) length (layout 0 entries)) (10 + (layout 0 entries).length) =
      some (lastSize 0 entries) := by
  have here := end_here (10 + tailStart entries) length (layout 0 entries)
  rw [insertPrevLen, here]
  simp only [Option.bind_eq_bind, Option.bind_some, ne_eq, not_true_eq_false, if_false]
  rcases List.eq_nil_or_concat entries with rfl | ⟨before, last, rfl⟩
  · have empty : (assembled (10 + tailStart []) length (layout 0 []))[10 + tailStart []]? = some zipEnd := here
    rw [assembled_tail _ _ _ (by decide), Option.bind_some, empty, Option.bind_some, if_neg (not_not.mpr rfl)]
    rfl
  · rw [List.concat_eq_append] at fits room ⊢
    rw [List.map_append, capacity_append, List.map_singleton, capacity_cons] at room
    obtain ⟨_, lastFits⟩ := (fitting_append 0 before [last]).mp fits
    have most := layout_le 0 before
    have short := value_short last.value (by omega)
    have place : tailStart (before ++ [last]) = (layout 0 before).length := tail_start_append before last []
    have shape : layout 0 (before ++ [last]) = layout 0 before ++ entryBytes last (lastSize 0 before) ++ [] := by
      rw [layout_append, layout_cons, List.append_assoc]
      rfl
    obtain ⟨first, begins, other⟩ := block_start (10 + (layout 0 before).length) length (layout 0 before) [] last
      (lastSize 0 before) lastFits.1
    have size := block_raw_length (10 + (layout 0 before).length) length (layout 0 before) [] last (lastSize 0 before)
      lastFits.1 short
    rw [place, shape, assembled_tail _ _ _ (by omega), Option.bind_some, begins, Option.bind_some, if_pos other, size,
      last_size_append]
    rfl

-- The new entry as it is written at its place.
def inserted (prev : Nat) (s : Bytes) : Entry := refitted prev ⟨false, s⟩

theorem inserted_size (prev : Nat) (s : Bytes) :
    (inserted prev s).size = zipPrevEncodeSize prev + (zipEncode s).length := by
  have size := refitted_size prev ⟨false, s⟩
  have old : (Entry.mk false s).size = 1 + (zipEncode s).length := rfl
  have field : fieldSize (Entry.mk false s).wide = 1 := rfl
  rw [inserted]
  omega

theorem room_made (length : Nat) (s : Bytes) (before after : List Entry) (fits : Fitting 0 (before ++ after))
    (room : capacity ((before ++ after).map Entry.value) + (5 + (zipEncode s).length) + 11 < 2 ^ 32)
    (opens : ∀ next rest, after = next :: rest → next.wide = true → 4 ≤ (inserted (lastSize 0 before) s).size) :
    ∃ gap : Bytes, gap.length = (inserted (lastSize 0 before) s).size ∧
      makeRoom junk (assembled (10 + tailStart (before ++ after)) length (layout 0 (before ++ after)))
          (10 + (layout 0 before).length) (inserted (lastSize 0 before) s).size =
        some (assembled (10 + tailStart (before ++ inserted (lastSize 0 before) s ::
            refittedAll (inserted (lastSize 0 before) s).size after)) length
          (layout 0 before ++ gap ++ layout (inserted (lastSize 0 before) s).size
            (refittedAll (inserted (lastSize 0 before) s).size after))) := by
  have most := layout_le 0 before
  have size : (inserted (lastSize 0 before) s).size ≤ 5 + (zipEncode s).length := size_le (inserted (lastSize 0 before) s)
  rw [List.map_append, capacity_append] at room
  rw [tail_start_append]
  generalize inserted (lastSize 0 before) s = new at opens size ⊢
  cases after with
  | nil =>
      obtain ⟨gap, free, made⟩ := room_at_end junk (10 + tailStart before) length new.size (layout 0 before) (by omega)
      refine ⟨gap, free, ?_⟩
      rw [List.append_nil, made, refittedAll, layout, List.append_nil, lastStart, Nat.add_zero]
  | cons next rest =>
      obtain ⟨nextFits, later⟩ := ((fitting_append 0 before (next :: rest)).mp fits).2
      have enough : fieldSize next.wide ≤ new.size + zipPrevEncodeSize new.size := by
        have positive := size_pos new
        have one : 1 ≤ zipPrevEncodeSize new.size := by
          rw [zipPrevEncodeSize]
          split <;> omega
        cases wide : next.wide with
        | true =>
            have four := opens next rest rfl wide
            rw [fieldSize, if_pos rfl]
            omega
        | false =>
            rw [fieldSize, if_neg Bool.false_ne_true]
            omega
      obtain ⟨gap, free, made⟩ := room_inside junk length (layout 0 before) next (lastSize 0 before) new.size rest nextFits
        later enough (by rw [List.map_cons] at room; omega)
      refine ⟨gap, free, ?_⟩
      rw [tail_start_append, layout_append, ← Nat.add_assoc, made, refittedAll, lastStart]
      simp only [Nat.add_assoc]

theorem prev_found (length : Nat) (before after : List Entry) (fits : Fitting 0 (before ++ after))
    (room : capacity ((before ++ after).map Entry.value) + 11 < 2 ^ 32) :
    insertPrevLen (assembled (10 + tailStart (before ++ after)) length (layout 0 (before ++ after)))
      (10 + (layout 0 before).length) = some (lastSize 0 before) := by
  cases after with
  | nil =>
      rw [List.append_nil] at fits room ⊢
      exact prev_at_end length before fits room
  | cons next rest =>
      have nextFits := ((fitting_append 0 before (next :: rest)).mp fits).2.1
      have size := last_size_le 0 before
      have most := layout_le 0 before
      rw [List.map_append, capacity_append] at room
      rw [layout_append]
      exact prev_inside _ length (layout 0 before) next (lastSize 0 before) rest nextFits (by omega)

theorem represented_count (zl : Bytes) (entries : List Entry) (length : Nat) (represents : Represents zl entries length) :
    length < 2 ^ 16 := by
  rcases represents.counted with counted | given
  · omega
  · omega

-- The count that is kept after a change of at most one entry more.
theorem counted_change (length before after : Nat) (incr : Int) (changed : (after : Int) = before + incr)
    (most : after ≤ before + 1) (counted : length = before ∧ length < 65535 ∨ length = 65535) :
    countedChange length incr = after ∧ countedChange length incr < 65535 ∨ countedChange length incr = 65535 := by
  rw [countedChange]
  rcases counted with ⟨rfl, kept⟩ | given
  · rw [if_pos kept, ← changed, Int.emod_eq_of_lt (by omega) (by omega), Int.toNat_natCast]
    omega
  · rw [if_neg (by omega)]
    exact .inr given

theorem insert_represents (zl s : Bytes) (before after : List Entry) (length : Nat)
    (represents : Represents zl (before ++ after) length)
    (room : capacity ((before ++ after).map Entry.value) + (5 + (zipEncode s).length) + 11 < 2 ^ 32)
    (opens : ∀ next rest, after = next :: rest → next.wide = true → 4 ≤ (inserted (lastSize 0 before) s).size) :
    ∃ next count, ziplistInsert junk zl (10 + (layout 0 before).length) s = some next ∧
      Represents next (before ++ inserted (lastSize 0 before) s :: refittedAll (inserted (lastSize 0 before) s).size after)
        count := by
  have prev := prev_found length before after represents.fitting represents.room
  obtain ⟨gap, free, made⟩ := room_made junk length s before after represents.fitting room opens
  obtain ⟨beforeFits, afterFits⟩ := (fitting_append 0 before after).mp represents.fitting
  have values := refitted_all_values (inserted (lastSize 0 before) s).size after
  have later := refitted_all_fits (lastSize 0 before) (inserted (lastSize 0 before) s).size after afterFits
  have bytes : entryBytes (inserted (lastSize 0 before) s) (lastSize 0 before) =
      zipPrevEncodeLength (lastSize 0 before) ++ zipEncode s := refitted_bytes (lastSize 0 before) ⟨false, s⟩
  have written := store_content (10 + tailStart (before ++ inserted (lastSize 0 before) s ::
    refittedAll (inserted (lastSize 0 before) s).size after)) length (layout 0 before) gap
    (layout (inserted (lastSize 0 before) s).size (refittedAll (inserted (lastSize 0 before) s).size after))
    (entryBytes (inserted (lastSize 0 before) s) (lastSize 0 before)) (by rw [entry_bytes_length, free])
  have shape : layout 0 before ++ entryBytes (inserted (lastSize 0 before) s) (lastSize 0 before) ++
      layout (inserted (lastSize 0 before) s).size (refittedAll (inserted (lastSize 0 before) s).size after) =
      layout 0 (before ++ inserted (lastSize 0 before) s :: refittedAll (inserted (lastSize 0 before) s).size after) := by
    rw [layout_append, layout_cons, List.append_assoc]
  rw [shape] at written
  refine ⟨_, countedChange length 1, ?_, rfl, ?_, ?_, ?_, ?_⟩
  · rw [ziplistInsert, represents.block, prev]
    simp only [Option.bind_eq_bind, Option.bind_some, ← inserted_size, made, ← bytes, written]
    exact incr_length_assembled _ length _ (represented_count zl _ length represents) 1
  · exact (fitting_append _ _ _).mpr ⟨beforeFits, refitted_fits _ _, later⟩
  · intro first rest split
    cases before with
    | nil =>
        cases split
        rfl
    | cons head tail =>
        cases split
        exact represents.narrow _ (tail ++ after) rfl
  · rw [List.map_append, List.map_cons, values, capacity_append, capacity_cons]
    rw [List.map_append, capacity_append] at room
    change _ + (5 + (zipEncode s).length + _) + 11 < 2 ^ 32
    omega
  · have sizes := congrArg List.length values
    rw [List.length_map, List.length_map] at sizes
    refine counted_change length (before ++ after).length _ 1 ?_ ?_ represents.counted
    · rw [List.length_append, List.length_append, List.length_cons, sizes]
      omega
    · rw [List.length_append, List.length_append, List.length_cons, sizes]
      omega

end Insert

section Delete

variable (junk : Bytes → Nat → UInt8)

theorem skip_entries (tail length num deleted : Nat) (front : Bytes) (prev : Nat) (entries : List Entry)
    (fits : Fitting prev entries) (room : capacity (entries.map Entry.value) < 2 ^ 32) :
    skipEntries (assembled tail length (front ++ layout prev entries)) num (10 + front.length) deleted =
      some (10 + front.length + (layout prev (entries.take num)).length, deleted + (entries.take num).length) := by
  induction num generalizing front prev entries deleted with
  | zero => rfl
  | succ num ih =>
      rw [skipEntries]
      cases entries with
      | nil =>
          have here := end_here tail length front
          simp only [layout, List.append_nil, here, Option.bind_eq_bind, Option.bind_some, if_true, List.take_nil,
            List.length_nil, Nat.add_zero]
      | cons entry rest =>
          rw [List.map_cons, capacity_cons] at room
          obtain ⟨first, here, other⟩ := block_start tail length front (layout entry.size rest) entry prev fits.1
          have size := block_raw_length tail length front (layout entry.size rest) entry prev fits.1
            (value_short entry.value (by omega))
          have later := ih (deleted + 1) (front ++ entryBytes entry prev) entry.size rest fits.2 (by omega)
          rw [List.length_append, entry_bytes_length, ← Nat.add_assoc] at later
          rw [layout_cons, ← List.append_assoc]
          simp only [here, size, Option.bind_eq_bind, Option.bind_some, if_neg other, later]
          rw [List.take_succ_cons, layout_cons, List.length_append, entry_bytes_length, List.length_cons]
          simp only [Nat.add_assoc, Nat.add_comm 1]

theorem tail_start_last (entries : List Entry) :
    tailStart entries + lastSize 0 entries = (layout 0 entries).length := by
  rcases List.eq_nil_or_concat entries with rfl | ⟨before, last, rfl⟩
  · rfl
  · rw [List.concat_eq_append, tail_start_append, last_size_append, layout_append, List.length_append, layout_cons,
      List.length_append, entry_bytes_length]
    rfl

theorem pulled (tail length : Nat) (front keep moved : Bytes) :
    ∃ excess : Bytes, excess.length = keep.length ∧
      memmove (assembled tail length (front ++ keep ++ moved)) (10 + front.length) (10 + (front ++ keep).length)
        moved.length = some (assembled tail length (front ++ moved ++ excess)) := by
  have loaded := load_content tail length (front ++ keep) moved []
  rw [List.append_nil] at loaded
  have taken : ((keep ++ moved).take moved.length).length = moved.length := by
    rw [List.length_take, List.length_append]
    omega
  have stored := store_content tail length front ((keep ++ moved).take moved.length) ((keep ++ moved).drop moved.length)
    moved taken.symm
  rw [List.append_assoc front, List.take_append_drop, ← List.append_assoc] at stored
  refine ⟨(keep ++ moved).drop moved.length, ?_, by rw [memmove, loaded, Option.bind_some, stored]⟩
  rw [List.length_drop, List.length_append]
  omega

-- Where the entry behind the deleted ones ends up. What is left over at the end of
-- the block is cut off later.
theorem moved_forward (tail length : Nat) (front gone : Bytes) (next : Entry) (stale prev : Nat) (rest : List Entry)
    (later : Fitting next.size rest) (small : prev < 2 ^ 32) (short : next.value.length < 2 ^ 32) (bound : tail < 2 ^ 32)
    (enough : zipPrevEncodeSize prev ≤ gone.length) :
    ∃ excess : Bytes, excess.length + zipPrevEncodeSize prev = gone.length + fieldSize next.wide ∧
      moveForward (assembled tail length (front ++ gone ++ entryBytes next stale ++ layout next.size rest))
          (10 + front.length) (10 + front.length + gone.length) prev
          ((front ++ gone ++ entryBytes next stale ++ layout next.size rest).length + 11)
          (zipPrevEncodeSize prev - fieldSize next.wide) =
        some (assembled (if rest = [] then tail - gone.length
            else ((tail - gone.length : Nat) + ((zipPrevEncodeSize prev : Int) - fieldSize next.wide)).toNat) length
          (front ++ entryBytes (refitted prev next) prev ++ layout next.size rest ++ excess)) := by
  have five := encode_size_le prev
  -- The new field takes the last bytes of what is deleted and of the old field.
  obtain ⟨keep, old, split, size⟩ : ∃ keep old : Bytes, gone ++ prevField next.wide stale = keep ++ old ∧
      old.length = zipPrevEncodeSize prev := by
    refine ⟨(gone ++ prevField next.wide stale).take (gone.length + fieldSize next.wide - zipPrevEncodeSize prev),
      (gone ++ prevField next.wide stale).drop (gone.length + fieldSize next.wide - zipPrevEncodeSize prev),
      (List.take_append_drop _ _).symm, ?_⟩
    rw [List.length_drop, List.length_append, field_length]
    omega
  have sizes := congrArg List.length split
  rw [List.length_append, field_length, List.length_append, size] at sizes
  have shape : front ++ gone ++ entryBytes next stale ++ layout next.size rest =
      front ++ keep ++ old ++ (zipEncode next.value ++ layout next.size rest) := by
    rw [entryBytes, List.append_assoc front keep, ← split]
    simp only [List.append_assoc]
  have place : (((10 + front.length + gone.length : Nat) : Int) - (zipPrevEncodeSize prev - fieldSize next.wide)).toNat =
      10 + (front ++ keep).length := by
    rw [List.length_append]
    omega
  have written := store_content tail length (front ++ keep) old (zipEncode next.value ++ layout next.size rest)
    (zipPrevEncodeLength prev) (by rw [encode_length, size])
  have entry : front ++ keep ++ zipPrevEncodeLength prev ++ (zipEncode next.value ++ layout next.size rest) =
      front ++ keep ++ entryBytes (refitted prev next) prev ++ layout next.size rest := by
    rw [refitted_bytes]
    simp only [List.append_assoc]
  rw [← shape, entry] at written
  obtain ⟨found, decoded, _, _, whole⟩ := block_entry (tail - gone.length) length (front ++ keep) (layout next.size rest)
    (refitted prev next) prev (refitted_fits prev next) short small
  obtain ⟨first, follows, ended⟩ := start_or_end (tail - gone.length) length
    (front ++ keep ++ entryBytes (refitted prev next) prev) next.size rest later
  rw [List.length_append, entry_bytes_length, ← Nat.add_assoc, ← whole, ← Nat.add_assoc] at follows
  have totlen : 10 + front.length + gone.length - (10 + front.length) = gone.length := by omega
  have resizes := refitted_size prev next
  have count : (front ++ gone ++ entryBytes next stale ++ layout next.size rest).length + 11 -
      (10 + (front ++ keep).length) - 1 =
        (entryBytes (refitted prev next) prev ++ layout next.size rest).length := by
    simp only [List.length_append, entry_bytes_length]
    omega
  obtain ⟨excess, left, moves⟩ := pulled (if rest = [] then tail - gone.length
    else ((tail - gone.length : Nat) + ((zipPrevEncodeSize prev : Int) - fieldSize next.wide)).toNat) length front keep
    (entryBytes (refitted prev next) prev ++ layout next.size rest)
  rw [← List.append_assoc, ← List.append_assoc] at moves
  refine ⟨excess, by omega, ?_⟩
  rw [moveForward, place, totlen]
  simp only [Option.bind_eq_bind, Option.bind_some, written, assembled_tail tail length _ bound, set_tail_assembled,
    decoded, follows, move_tail_assembled, decide_eq_true_eq, ne_eq, ended, ite_not, count, moves]

theorem last_start_pulled (place size gone : Nat) (next : Entry) (rest : List Entry) :
    (if rest = [] then place + gone + lastStart next rest - gone
      else ((place + gone + lastStart next rest - gone : Nat) +
        ((zipPrevEncodeSize size : Int) - fieldSize next.wide)).toNat) =
      place + lastStart (refitted size next) rest := by
  have resizes := refitted_size size next
  cases rest with
  | nil =>
      rw [if_pos rfl, lastStart, lastStart]
      omega
  | cons other rest =>
      rw [if_neg (List.cons_ne_nil _ _), lastStart, lastStart]
      omega

-- The first of the deleted entries holds the same length as the entry behind them will.
theorem field_enough (prev : Nat) (first : Entry) (fits : first.wide = false → prev < 254) :
    zipPrevEncodeSize prev ≤ first.size := by
  have least : fieldSize first.wide ≤ first.size := Nat.le_add_right _ _
  rw [zipPrevEncodeSize]
  cases wide : first.wide with
  | true =>
      rw [wide, fieldSize, if_pos rfl] at least
      split <;> omega
  | false =>
      have positive := size_pos first
      rw [if_pos (fits wide)]
      exact positive

theorem removed_to_end (tail length prev deleted : Nat) (front gone : Bytes) (counts : length < 2 ^ 16)
    (room : front.length + gone.length + 11 < 2 ^ 32) :
    removeSpan junk (assembled tail length (front ++ gone)) (10 + front.length) (10 + front.length + gone.length) prev
        deleted = some (assembled (10 + front.length - prev) (countedChange length (-deleted)) front) := by
  have here := end_here tail length (front ++ gone)
  rw [List.length_append, ← Nat.add_assoc] at here
  have field : zipDecodePrevLenSize (assembled tail length (front ++ gone)) (10 + front.length + gone.length) = some 5 := by
    rw [zipDecodePrevLenSize, here]
    rfl
  have bytes := assembled_bytes tail length (front ++ gone) (by rw [List.length_append]; omega)
  have resized : ((((front ++ gone).length + 11 : Nat) : Int) -
      ((10 + front.length + gone.length - (10 + front.length) : Nat) : Int) + 0).toNat = front.length + 11 := by
    rw [List.length_append]
    omega
  rw [removeSpan, bytes]
  simp only [Option.bind_eq_bind, Option.bind_some, here, field, ne_eq, not_true_eq_false, if_false, set_tail_assembled,
    resized, resize_shrunk, incr_length_assembled _ length _ counts]

theorem removed_inside (length prev stale deleted : Nat) (front gone : Bytes) (next : Entry) (rest : List Entry)
    (fits : next.wide = false → stale < 254) (later : Fitting next.size rest) (counts : length < 2 ^ 16)
    (bound : prev < 2 ^ 32) (enough : zipPrevEncodeSize prev ≤ gone.length)
    (room : front.length + gone.length + capacity (next.value :: rest.map Entry.value) + 11 < 2 ^ 32) :
    removeSpan junk (assembled (10 + front.length + gone.length + lastStart next rest) length
        (front ++ gone ++ layout stale (next :: rest))) (10 + front.length) (10 + front.length + gone.length) prev deleted =
      some (assembled (10 + front.length + lastStart (refitted prev next)
          (cascaded next.size (refitted prev next).size rest)) (countedChange length (-deleted))
        (front ++ layout prev (refittedAll prev (next :: rest)))) := by
  rw [capacity_cons] at room
  have resizes := refitted_size prev next
  have most := size_le next
  have newMost : (refitted prev next).size ≤ 5 + (zipEncode next.value).length := size_le (refitted prev next)
  have restMost := layout_le next.size rest
  have start := last_start_le next rest
  have short := value_short next.value (by omega)
  have tail := last_start_pulled (10 + front.length) prev gone.length next rest
  have small : 10 + front.length + gone.length + lastStart next rest < 2 ^ 32 := by omega
  rw [layout_cons, ← List.append_assoc]
  generalize 10 + front.length + gone.length + lastStart next rest = offset at *
  obtain ⟨first, here, other⟩ := block_start offset length (front ++ gone) (layout next.size rest) next stale fits
  have field := block_prev_size offset length (front ++ gone) (layout next.size rest) next stale fits
  rw [List.length_append, ← Nat.add_assoc] at here field
  obtain ⟨excess, _, moves⟩ := moved_forward offset length front gone next stale prev rest later bound short small enough
  have bytes := assembled_bytes offset length (front ++ gone ++ entryBytes next stale ++ layout next.size rest)
    (by simp only [List.length_append, entry_bytes_length]; omega)
  have resized : ((((front ++ gone ++ entryBytes next stale ++ layout next.size rest).length + 11 : Nat) : Int) -
      ((10 + front.length + gone.length - (10 + front.length) : Nat) : Int) +
        (zipPrevEncodeSize prev - fieldSize next.wide)).toNat =
      (front ++ entryBytes (refitted prev next) prev ++ layout next.size rest).length + 11 := by
    simp only [List.length_append, entry_bytes_length]
    omega
  rw [tail] at moves
  rw [removeSpan, bytes]
  simp only [Option.bind_eq_bind, Option.bind_some, here, field, if_pos other, moves, resized, resize_shrunk,
    incr_length_assembled _ length _ counts]
  exact cascade_if junk _ front next prev rest later bound (by omega) (by omega)

theorem deleted_block (length num : Nat) (before entries : List Entry) (fits : Fitting 0 (before ++ entries))
    (room : capacity ((before ++ entries).map Entry.value) + 11 < 2 ^ 32) (counts : length < 2 ^ 16)
    (some : entries ≠ []) (positive : 0 < num) :
    ziplistDeleteEntries junk (assembled (10 + tailStart (before ++ entries)) length (layout 0 (before ++ entries)))
        (10 + (layout 0 before).length) num =
      .some (assembled (10 + tailStart (before ++ refittedAll (lastSize 0 before) (entries.drop num)))
        (countedChange length (-(entries.take num).length))
        (layout 0 (before ++ refittedAll (lastSize 0 before) (entries.drop num)))) := by
  obtain ⟨first, more, rfl⟩ := List.exists_cons_of_ne_nil some
  obtain ⟨_, listFits⟩ := (fitting_append 0 before (first :: more)).mp fits
  have size := last_size_le 0 before
  have most := layout_le 0 before
  rw [List.map_append, capacity_append] at room
  have firstRoom := capacity_cons first.value (more.map Entry.value)
  rw [← List.map_cons] at firstRoom
  have skipped := skip_entries (10 + tailStart (before ++ first :: more)) length num 0 (layout 0 before) (lastSize 0 before)
    (first :: more) listFits (by omega)
  obtain ⟨found, decoded, _, stored, _⟩ := block_entry (10 + tailStart (before ++ first :: more)) length (layout 0 before)
    (layout first.size more) first (lastSize 0 before) listFits.1 (value_short first.value (by omega)) (by omega)
  rw [List.append_assoc, ← layout_cons, ← layout_append] at decoded
  rw [← layout_append, Nat.zero_add] at skipped
  have field := field_enough (lastSize 0 before) first listFits.1
  have removed : first.size ≤ (layout (lastSize 0 before) ((first :: more).take num)).length := by
    obtain ⟨less, rfl⟩ := Nat.exists_eq_succ_of_ne_zero positive.ne'
    rw [List.take_succ_cons, layout_cons, List.length_append, entry_bytes_length]
    exact Nat.le_add_right _ _
  have firstSize := size_pos first
  rw [ziplistDeleteEntries, decoded]
  simp only [Option.bind_eq_bind, Option.bind_some, skipped, stored]
  rw [if_neg (by omega)]
  -- From here on only what is taken and what is left counts.
  have parts := List.take_append_drop num (first :: more)
  generalize (first :: more).take num = taken at *
  generalize (first :: more).drop num = left at *
  rw [← parts] at listFits room ⊢
  obtain ⟨_, leftFits⟩ := (fitting_append (lastSize 0 before) taken left).mp listFits
  have takenMost := layout_le (lastSize 0 before) taken
  rw [List.map_append, capacity_append] at room
  cases left with
  | nil =>
      have last := tail_start_last before
      rw [List.append_nil, layout_append, removed_to_end junk _ length _ _ _ _ counts (by omega), refittedAll,
        List.append_nil]
      congr 2
      omega
  | cons next rest =>
      rw [List.map_cons] at room
      have gone := removed_inside junk length (lastSize 0 before) (lastSize (lastSize 0 before) taken) taken.length
        (layout 0 before) (layout (lastSize 0 before) taken) next rest leftFits.1 leftFits.2 counts (by omega) (by omega)
        (by omega)
      have shape : layout 0 (before ++ (taken ++ next :: rest)) = layout 0 before ++ layout (lastSize 0 before) taken ++
          layout (lastSize (lastSize 0 before) taken) (next :: rest) := by
        rw [layout_append, layout_append, List.append_assoc]
      have start : 10 + tailStart (before ++ (taken ++ next :: rest)) =
          10 + (layout 0 before).length + (layout (lastSize 0 before) taken).length + lastStart next rest := by
        rw [← List.append_assoc, tail_start_append, layout_append, List.length_append]
        omega
      rw [shape, start, gone, refittedAll, tail_start_append, ← Nat.add_assoc, layout_append]

theorem delete_represents (zl : Bytes) (before entries : List Entry) (length num : Nat)
    (represents : Represents zl (before ++ entries) length) (some : entries ≠ []) (positive : 0 < num) :
    ∃ next count, ziplistDeleteEntries junk zl (10 + (layout 0 before).length) num = .some next ∧
      Represents next (before ++ refittedAll (lastSize 0 before) (entries.drop num)) count := by
  have deleted := deleted_block junk length num before entries represents.fitting represents.room
    (represented_count zl _ length represents) some positive
  obtain ⟨beforeFits, listFits⟩ := (fitting_append 0 before entries).mp represents.fitting
  have values := refitted_all_values (lastSize 0 before) (entries.drop num)
  have parts := List.take_append_drop num entries
  rw [represents.block, deleted]
  refine ⟨_, countedChange length (-(entries.take num).length), rfl, rfl, ?_, ?_, ?_, ?_⟩
  · rw [← parts] at listFits
    exact (fitting_append _ _ _).mpr ⟨beforeFits, refitted_all_fits _ _ _ ((fitting_append _ _ _).mp listFits).2⟩
  · intro first rest split
    cases before with
    | nil =>
        cases left : entries.drop num with
        | nil =>
            rw [left] at split
            cases split
        | cons next rest =>
            rw [left] at split
            cases split
            rfl
    | cons head tail =>
        cases split
        exact represents.narrow _ (tail ++ entries) rfl
  · have room := represents.room
    rw [← parts] at room
    simp only [List.map_append, capacity_append] at room
    rw [List.map_append, values, capacity_append]
    omega
  · have sizes := congrArg List.length values
    have whole := congrArg List.length parts
    rw [List.length_map, List.length_map] at sizes
    rw [List.length_append] at whole
    refine counted_change length (before ++ entries).length _ _ ?_ ?_ represents.counted
    · rw [List.length_append, List.length_append, sizes]
      omega
    · rw [List.length_append, List.length_append, sizes]
      omega

end Delete

end AppFit.Redis
