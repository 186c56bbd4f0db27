import AppFit.Redis.ZiplistEdit
import AppFit.Redis.Lists

/- The two encodings of a list in Redis (t_list.c, object.c): a ziplist while the list
   is short, a linked list of objects afterwards. A client cannot tell them apart:
   pushes, pops and lengths are those of a plain list of texts. -/
set_option autoImplicit false

namespace AppFit.Redis.Encoded

open AppFit.Memory AppFit.Redis

inductive StringObject where
  | sds (bytes : Bytes)
  | int (value : Int)

def getDecodedObject : StringObject → Option Bytes
  | .sds bytes => some bytes
  | .int value => ll2string value

def tryObjectEncoding (bytes : Bytes) : StringObject :=
  if bytes.length ≤ 21 then
    match string2ll bytes with
    | some value => .int value
    | none => .sds bytes
  else .sds bytes

def createString : Element → StringObject
  | .text bytes => .sds bytes
  | .number value => .int value

inductive ListObject where
  | ziplist (zl : Bytes)
  | linkedlist (nodes : List StringObject)

def createZiplistObject : ListObject := .ziplist ziplistNew

structure Limits where
  listMaxZiplistEntries : Nat
  listMaxZiplistValue : Nat

def countEntries (zl : Bytes) : Nat → Nat → Nat → Option Nat
  | 0, _, _ => none
  | passes + 1, p, len => do
      let here ← zl[p]?
      if here = zipEnd then some len
      else
        let size ← zipRawEntryLength zl p
        countEntries zl passes (p + size) (len + 1)

-- The length, and the block in which it may have been stored again.
def ziplistLen (zl : Bytes) : Option (Nat × Bytes) := do
  let length ← ziplistLength zl
  if length < 65535 then some (length, zl)
  else
    let len ← countEntries zl zl.length ziplistHeaderSize 0
    if len < 65535 then
      let stored ← setLength zl len
      some (len, stored)
    else some (len, zl)

-- ziplistIndex for the first and the last entry; some none is NULL.
def ziplistIndex (zl : Bytes) : Side → Option (Option Nat)
  | .head => zl[ziplistHeaderSize]?.map fun here => if here = zipEnd then none else some ziplistHeaderSize
  | .tail => do
      let p ← ziplistTailOffset zl
      let here ← zl[p]?
      if here = zipEnd then some none
      else
        let _ ← zipDecodePrevLen zl p
        some (some p)

def ziplistNext (zl : Bytes) (p : Nat) : Option (Option Nat) := do
  let here ← zl[p]?
  if here = zipEnd then some none
  else
    let size ← zipRawEntryLength zl p
    let following ← zl[p + size]?
    some (if following = zipEnd then none else some (p + size))

-- The loop of listTypeConvert over the iterator of the ziplist.
def collectNodes (zl : Bytes) : Nat → Option Nat → List StringObject → Option (List StringObject)
  | _, none, nodes => some nodes
  | 0, some _, _ => none
  | passes + 1, some p, nodes => do
      let next ← ziplistNext zl p
      let element ← ziplistGet zl p
      let value ← element
      collectNodes zl passes next (nodes ++ [createString value])

def listTypeConvert (zl : Bytes) : Option ListObject := do
  let first ← ziplistIndex zl .head
  let nodes ← collectNodes zl zl.length first []
  some (.linkedlist nodes)

def listTypeTryConversion (limits : Limits) (subject : ListObject) (value : StringObject) : Option ListObject :=
  match subject, value with
  | .ziplist zl, .sds bytes => if limits.listMaxZiplistValue < bytes.length then listTypeConvert zl else some subject
  | _, _ => some subject

def convertLong (limits : Limits) : ListObject → Option ListObject
  | .ziplist zl => do
      let (len, counted) ← ziplistLen zl
      if limits.listMaxZiplistEntries ≤ len then listTypeConvert counted else some (.ziplist counted)
  | .linkedlist nodes => some (.linkedlist nodes)

section Blocks

variable (junk : Bytes → Nat → UInt8)

def ziplistPush (zl s : Bytes) : Side → Option Bytes
  | .head => ziplistInsert junk zl ziplistHeaderSize s
  | .tail => do
      let bytes ← ziplistBytes zl
      ziplistInsert junk zl (bytes - 1) s

def pushObject (value : StringObject) (side : Side) : ListObject → Option ListObject
  | .ziplist zl => do
      let bytes ← getDecodedObject value
      let pushed ← ziplistPush junk zl bytes side
      some (.ziplist pushed)
  | .linkedlist nodes => some (.linkedlist (Redis.listTypePush side nodes value))

def listTypePush (limits : Limits) (subject : ListObject) (value : StringObject) (side : Side) : Option ListObject := do
  let tried ← listTypeTryConversion limits subject value
  let sized ← convertLong limits tried
  pushObject junk value side sized

def listTypePop (subject : ListObject) (side : Side) : Option (Option StringObject × ListObject) :=
  match subject with
  | .ziplist zl => do
      let index ← ziplistIndex zl side
      match index with
      | none => some (none, subject)
      | some p => do
          let element ← ziplistGet zl p
          match element with
          | none => some (none, subject)
          | some value => do
              let left ← ziplistDeleteEntries junk zl p 1
              some (some (createString value), .ziplist left)
  | .linkedlist nodes =>
      match Redis.listTypePop side nodes with
      | none => some (none, subject)
      | some (value, left) => some (some value, .linkedlist left)

def listTypeLength : ListObject → Option (Nat × ListObject)
  | .ziplist zl => (ziplistLen zl).map fun counted => (counted.1, .ziplist counted.2)
  | .linkedlist nodes => some (nodes.length, .linkedlist nodes)

end Blocks

theorem count_entries (tail length passes len : Nat) (front : Bytes) (prev : Nat) (entries : List Entry)
    (fits : Fitting prev entries) (room : capacity (entries.map Entry.value) < 2 ^ 32) (enough : entries.length < passes) :
    countEntries (assembled tail length (front ++ layout prev entries)) passes (10 + front.length) len =
      some (len + entries.length) := by
  induction passes generalizing front prev entries len with
  | zero => exact absurd enough (Nat.not_lt_zero _)
  | succ passes ih =>
      rw [countEntries]
      cases entries with
      | nil =>
          have here := end_here tail length front
          simp only [layout, List.append_nil, here, Option.bind_eq_bind, Option.bind_some, if_true, List.length_nil,
            Nat.add_zero]
      | cons entry rest =>
          rw [List.map_cons, capacity_cons] at room
          obtain ⟨first, here, other⟩ := block_start tail length front (layout entry.size rest) entry prev fits.1
          have size := block_raw_length tail length front (layout entry.size rest) entry prev fits.1
            (value_short entry.value (by omega))
          have later := ih (len + 1) (front ++ entryBytes entry prev) entry.size rest fits.2 (by omega)
            (Nat.lt_of_succ_lt_succ enough)
          rw [List.length_append, entry_bytes_length, ← Nat.add_assoc] at later
          rw [layout_cons, ← List.append_assoc]
          simp only [here, size, Option.bind_eq_bind, Option.bind_some, if_neg other, later, List.length_cons]
          rw [Nat.add_assoc, Nat.add_comm 1]

theorem ziplist_len (zl : Bytes) (entries : List Entry) (length : Nat) (represents : Represents zl entries length) :
    ∃ next count, ziplistLen zl = some (entries.length, next) ∧ Represents next entries count := by
  have counts := represented_count zl entries length represents
  have room := represents.room
  have sized := entries_le_layout 0 entries
  have count := assembled_count (10 + tailStart entries) length (layout 0 entries) counts
  rw [ziplistLen, represents.block, count]
  simp only [Option.bind_eq_bind, Option.bind_some]
  split
  · rename_i kept
    have exactly : length = entries.length := by
      rcases represents.counted with counted | given
      · exact counted.1
      · omega
    exact ⟨_, length, by rw [exactly], rfl, represents.fitting, represents.narrow, represents.room, represents.counted⟩
  · have counted := count_entries (10 + tailStart entries) length
      (assembled (10 + tailStart entries) length (layout 0 entries)).length 0 [] 0 entries represents.fitting (by omega)
      (by rw [assembled_length]; omega)
    rw [List.nil_append, List.length_nil, Nat.add_zero, Nat.zero_add] at counted
    rw [ziplistHeaderSize, counted, Option.bind_some]
    split
    · rename_i few
      rw [set_length_assembled, Option.bind_some]
      exact ⟨_, entries.length, rfl, rfl, represents.fitting, represents.narrow, represents.room, .inl ⟨rfl, few⟩⟩
    · exact ⟨_, length, rfl, rfl, represents.fitting, represents.narrow, represents.room, represents.counted⟩

theorem new_represents : Represents ziplistNew [] 0 :=
  ⟨rfl, trivial, fun _ _ empty => absurd empty.symm (List.cons_ne_nil _ _), by decide, .inl ⟨rfl, by decide⟩⟩

theorem index_head (zl : Bytes) (entries : List Entry) (length : Nat) (represents : Represents zl entries length) :
    ziplistIndex zl .head = some (if entries = [] then none else some 10) := by
  obtain ⟨first, here, ended⟩ := start_or_end (10 + tailStart entries) length [] 0 entries represents.fitting
  rw [List.nil_append, ← represents.block] at here
  rw [ziplistIndex, ziplistHeaderSize]
  change zl[10]? = some first at here
  rw [here, Option.map_some]
  simp only [ended]

theorem index_tail (zl : Bytes) (before : List Entry) (last : Entry) (length : Nat)
    (represents : Represents zl (before ++ [last]) length) :
    ziplistIndex zl .tail = some (some (10 + (layout 0 before).length)) := by
  have room := represents.room
  obtain ⟨_, fits⟩ := (fitting_append 0 before [last]).mp represents.fitting
  have most := layout_le 0 before
  have size := last_size_le 0 before
  rw [List.map_append, capacity_append] at room
  have shape : layout 0 (before ++ [last]) = layout 0 before ++ entryBytes last (lastSize 0 before) ++ [] := by
    rw [layout_append, layout_cons, List.append_assoc]
    rfl
  have start : tailStart (before ++ [last]) = (layout 0 before).length := tail_start_append before last []
  obtain ⟨first, here, other⟩ := block_start (10 + (layout 0 before).length) length (layout 0 before) [] last
    (lastSize 0 before) fits.1
  have field := block_prev (10 + (layout 0 before).length) length (layout 0 before) [] last (lastSize 0 before) fits.1
    (by omega)
  rw [ziplistIndex, represents.block, shape, start, assembled_tail _ _ _ (by omega)]
  simp only [Option.bind_eq_bind, Option.bind_some, here, if_neg other, field]

theorem index_tail_empty (zl : Bytes) (length : Nat) (represents : Represents zl [] length) :
    ziplistIndex zl .tail = some none := by
  have block : zl = assembled 10 length [] := represents.block
  have here : (assembled 10 length [])[10]? = some zipEnd := end_here 10 length []
  rw [ziplistIndex, block, assembled_tail _ _ _ (by decide)]
  simp only [here, Option.bind_eq_bind, Option.bind_some, if_true]

section Refinement

variable (junk : Bytes → Nat → UInt8)

-- A ziplist that holds the texts.
def HoldsTexts (zl : Bytes) (texts : List Bytes) : Prop :=
  ∃ entries length, Represents zl entries length ∧ entries.map Entry.value = texts

theorem push_holds (zl s : Bytes) (side : Side) (texts : List Bytes) (holds : HoldsTexts zl texts)
    (room : capacity texts + (5 + (zipEncode s).length) + 11 < 2 ^ 32) :
    ∃ next, ziplistPush junk zl s side = some next ∧ HoldsTexts next (Redis.listTypePush side texts s) := by
  obtain ⟨entries, length, represents, rfl⟩ := holds
  cases side with
  | head =>
      obtain ⟨next, count, inserted, kept⟩ := insert_represents junk zl s [] entries length represents room
        (fun first rest split wide => by rw [represents.narrow first rest split] at wide; cases wide)
      refine ⟨next, inserted, _, count, kept, ?_⟩
      rw [List.nil_append, List.map_cons, refitted_all_values]
      rfl
  | tail =>
      have most := layout_le 0 entries
      have bytes := assembled_bytes (10 + tailStart entries) length (layout 0 entries) (by omega)
      rw [← represents.block] at bytes
      rw [← List.append_nil entries] at represents room
      obtain ⟨next, count, inserted, kept⟩ := insert_represents junk zl s entries [] length represents room
        (fun first rest split => absurd split.symm (List.cons_ne_nil _ _))
      have place : (layout 0 entries).length + 11 - 1 = 10 + (layout 0 entries).length := by omega
      refine ⟨next, ?_, _, count, kept, ?_⟩
      · rw [ziplistPush, bytes]
        simp only [Option.bind_eq_bind, Option.bind_some, place, inserted]
      · rw [List.map_append, List.map_cons, refittedAll]
        rfl

-- An entry is read and deleted where it stands.
theorem take_entry (zl : Bytes) (before : List Entry) (entry : Entry) (after : List Entry) (length : Nat)
    (represents : Represents zl (before ++ entry :: after) length) :
    ∃ element next count, ziplistGet zl (10 + (layout 0 before).length) = some (some element) ∧
      element.bytes = some entry.value ∧
      ziplistDeleteEntries junk zl (10 + (layout 0 before).length) 1 = some next ∧
      Represents next (before ++ refittedAll (lastSize 0 before) after) count := by
  have room := represents.room
  obtain ⟨_, fits⟩ := (fitting_append 0 before (entry :: after)).mp represents.fitting
  have most := layout_le 0 before
  have size := last_size_le 0 before
  rw [List.map_append, capacity_append, List.map_cons, capacity_cons] at room
  obtain ⟨element, got, bytes⟩ := block_get (10 + tailStart (before ++ entry :: after)) length (layout 0 before)
    (layout entry.size after) entry (lastSize 0 before) fits.1 (value_short entry.value (by omega)) (by omega)
  rw [List.append_assoc, ← layout_cons, ← layout_append, ← represents.block] at got
  obtain ⟨next, count, deleted, kept⟩ := delete_represents junk zl before (entry :: after) length 1 represents
    (List.cons_ne_nil _ _) Nat.one_pos
  exact ⟨element, next, count, got, bytes, deleted, kept⟩

theorem pop_holds (zl : Bytes) (side : Side) (text : Bytes) (texts left : List Bytes) (holds : HoldsTexts zl texts)
    (pops : Redis.listTypePop side texts = some (text, left)) :
    ∃ p element next, ziplistIndex zl side = some (some p) ∧ ziplistGet zl p = some (some element) ∧
      element.bytes = some text ∧ ziplistDeleteEntries junk zl p 1 = some next ∧ HoldsTexts next left := by
  obtain ⟨entries, length, represents, rfl⟩ := holds
  cases side with
  | head =>
      cases entries with
      | nil => cases pops
      | cons entry rest =>
          cases pops
          obtain ⟨element, next, count, got, bytes, deleted, kept⟩ := take_entry junk zl [] entry rest length represents
          refine ⟨10, element, next, ?_, got, bytes, deleted, _, count, kept, ?_⟩
          · rw [index_head zl _ length represents, if_neg (List.cons_ne_nil _ _)]
          · rw [List.nil_append, refitted_all_values]
            rfl
  | tail =>
      rcases List.eq_nil_or_concat entries with rfl | ⟨before, last, rfl⟩
      · cases pops
      · rw [List.concat_eq_append] at represents pops
        obtain ⟨element, next, count, got, bytes, deleted, kept⟩ := take_entry junk zl before last [] length represents
        rw [List.map_append, List.map_singleton, Redis.listTypePop, List.getLast?_append, List.dropLast_concat] at pops
        cases pops
        refine ⟨_, element, next, index_tail zl before last length represents, got, bytes, deleted, _, count, kept, ?_⟩
        rw [refittedAll, List.append_nil]

theorem pop_empty (zl : Bytes) (side : Side) (holds : HoldsTexts zl []) : ziplistIndex zl side = some none := by
  obtain ⟨entries, length, represents, empty⟩ := holds
  cases List.map_eq_nil_iff.mp empty
  cases side with
  | head => rw [index_head zl [] length represents, if_pos rfl]
  | tail => exact index_tail_empty zl length represents

theorem decoded_string (element : Element) : getDecodedObject (createString element) = element.bytes := by
  cases element with
  | text bytes => rfl
  | number value => rfl

theorem ziplist_next (tail length : Nat) (front : Bytes) (prev : Nat) (entry : Entry) (rest : List Entry)
    (fits : Fitting prev (entry :: rest)) (short : entry.value.length < 2 ^ 32) :
    ziplistNext (assembled tail length (front ++ entryBytes entry prev ++ layout entry.size rest)) (10 + front.length) =
      some (if rest = [] then none else some (10 + front.length + entry.size)) := by
  obtain ⟨first, here, other⟩ := block_start tail length front (layout entry.size rest) entry prev fits.1
  obtain ⟨following, there, ended⟩ := start_or_end tail length (front ++ entryBytes entry prev) entry.size rest fits.2
  have size := block_raw_length tail length front (layout entry.size rest) entry prev fits.1 short
  rw [List.length_append, entry_bytes_length, ← Nat.add_assoc] at there
  rw [ziplistNext, here]
  simp only [Option.bind_eq_bind, Option.bind_some, if_neg other, size, there, ended]

-- The loop is in front of entries; the nodes of those before are already there.
theorem collect_nodes (tail length passes : Nat) (front : Bytes) (prev : Nat) (entries : List Entry)
    (nodes : List StringObject) (fits : Fitting prev entries) (room : capacity (entries.map Entry.value) < 2 ^ 32)
    (bound : prev < 2 ^ 32) (enough : entries.length ≤ passes) :
    ∃ more, collectNodes (assembled tail length (front ++ layout prev entries)) passes
        (if entries = [] then none else some (10 + front.length)) nodes = some (nodes ++ more) ∧
      more.map getDecodedObject = (entries.map Entry.value).map some := by
  induction entries generalizing passes front prev nodes with
  | nil =>
      refine ⟨[], ?_, rfl⟩
      rw [if_pos rfl, List.append_nil, collectNodes]
  | cons entry rest ih =>
      rw [List.map_cons, capacity_cons] at room
      obtain ⟨less, rfl⟩ : ∃ less, passes = less + 1 := Nat.exists_eq_add_one.mpr (Nat.lt_of_lt_of_le (Nat.succ_pos _) enough)
      have short := value_short entry.value (by omega)
      have most := size_le entry
      obtain ⟨element, got, bytes⟩ := block_get tail length front (layout entry.size rest) entry prev fits.1 short bound
      have next := ziplist_next tail length front prev entry rest fits short
      obtain ⟨more, collected, decoded⟩ := ih less (front ++ entryBytes entry prev) entry.size
        (nodes ++ [createString element]) fits.2 (by omega) (by omega) (Nat.le_of_succ_le_succ enough)
      refine ⟨createString element :: more, ?_, ?_⟩
      · rw [List.length_append, entry_bytes_length, ← Nat.add_assoc, List.append_assoc nodes] at collected
        rw [layout_cons, ← List.append_assoc, if_neg (List.cons_ne_nil _ _), collectNodes, next]
        simp only [Option.bind_eq_bind, Option.bind_some, got, collected, List.singleton_append]
      · rw [List.map_cons, decoded_string, bytes, decoded, List.map_cons, List.map_cons]

theorem convert_decodes (zl : Bytes) (texts : List Bytes) (holds : HoldsTexts zl texts) :
    ∃ nodes, listTypeConvert zl = some (.linkedlist nodes) ∧ nodes.map getDecodedObject = texts.map some := by
  obtain ⟨entries, length, represents, rfl⟩ := holds
  have room := represents.room
  have sized := entries_le_layout 0 entries
  obtain ⟨nodes, collected, decoded⟩ := collect_nodes (10 + tailStart entries) length zl.length [] 0 entries []
    represents.fitting (by omega) (by decide) (by rw [represents.block, assembled_length]; omega)
  refine ⟨nodes, ?_, decoded⟩
  rw [List.nil_append, List.nil_append, ← represents.block, List.length_nil, Nat.add_zero] at collected
  rw [listTypeConvert, index_head zl entries length represents]
  simp only [Option.bind_eq_bind, Option.bind_some, collected]

theorem decoded_argument (bytes : Bytes) : getDecodedObject (tryObjectEncoding bytes) = some bytes := by
  rw [tryObjectEncoding]
  split
  · cases read : string2ll bytes with
    | none => rfl
    | some value => exact string2ll_text bytes value read
  · rfl

theorem encode_length_le (rawlen : Nat) : (zipEncodeLength 0 rawlen).length ≤ 5 := by
  have str : zipIsStr 0 = true := rfl
  rw [zipEncodeLength, if_pos str]
  split_ifs
  · exact Nat.one_le_ofNat
  · exact Nat.le_of_ble_eq_true rfl
  · rw [List.length_cons, big_length]

theorem int_size_le (encoding : Nat) : zipIntSize encoding ≤ 8 := by
  rw [zipIntSize]
  split_ifs <;> omega

theorem zip_encode_le (s : Bytes) : (zipEncode s).length ≤ 9 + s.length := by
  rw [zipEncode]
  cases encoded : zipTryEncoding s with
  | none =>
      have field := encode_length_le s.length
      rw [List.length_append]
      omega
  | some pair =>
      obtain ⟨number, encoding⟩ := pair
      obtain ⟨read, rfl⟩ := try_encoding_some s number encoding encoded
      obtain ⟨least, most⟩ := string2ll_range s number read
      obtain ⟨large, small⟩ := int_encoding_bounds number least most
      have one := (decode_length_number [] [] s.length (zipIntEncoding number) large small).2
      have size := int_size_le (zipIntEncoding number)
      rw [List.length_append, one, zipSaveInteger, little_length]
      omega

theorem capacity_le (size : Nat) (texts : List Bytes) (short : ∀ text ∈ texts, text.length ≤ size) :
    capacity texts ≤ texts.length * (14 + size) := by
  induction texts with
  | nil => exact Nat.zero_le _
  | cons text rest ih =>
      have first := short text List.mem_cons_self
      have encoded := zip_encode_le text
      have others := ih fun other member => short other (List.mem_cons_of_mem _ member)
      rw [capacity_cons, List.length_cons, Nat.succ_mul]
      omega

-- A ziplist holds few and short texts; the nodes of a linked list are objects.
inductive Encodes (entries size : Nat) : ListObject → List Bytes → Prop
  | ziplist (zl : Bytes) (texts : List Bytes) (holds : HoldsTexts zl texts) (few : texts.length ≤ entries)
      (short : ∀ text ∈ texts, text.length ≤ size) : Encodes entries size (.ziplist zl) texts
  | linkedlist (nodes : List StringObject) (texts : List Bytes)
      (decoded : nodes.map getDecodedObject = texts.map some) : Encodes entries size (.linkedlist nodes) texts

theorem new_encodes (entries size : Nat) : Encodes entries size createZiplistObject [] := by
  refine .ziplist ziplistNew [] ⟨[], 0, new_represents, rfl⟩ (Nat.zero_le _) ?_
  intro text member
  cases member

theorem length_encodes (entries size : Nat) (object : ListObject) (texts : List Bytes)
    (encodes : Encodes entries size object texts) :
    ∃ next, listTypeLength object = some (texts.length, next) ∧ Encodes entries size next texts := by
  cases encodes with
  | ziplist zl texts holds few short =>
      obtain ⟨held, length, represents, rfl⟩ := holds
      obtain ⟨next, count, counted, kept⟩ := ziplist_len zl held length represents
      refine ⟨.ziplist next, ?_, .ziplist next _ ⟨held, count, kept, rfl⟩ few short⟩
      rw [listTypeLength, counted, List.length_map]
      rfl
  | linkedlist nodes texts decoded =>
      have same := congrArg List.length decoded
      rw [List.length_map, List.length_map] at same
      exact ⟨.linkedlist nodes, by rw [listTypeLength, same], .linkedlist nodes texts decoded⟩

section Bounded

variable (entries size : Nat) (wide : 21 ≤ size) (fits : entries * (14 + size) + 11 < 2 ^ 32)

include wide in
-- What stays a ziplist is about to get a short text.
theorem tried_encodes (limits : Limits) (value : StringObject) (text : Bytes) (object : ListObject) (texts : List Bytes)
    (decodes : getDecodedObject value = some text) (limited : limits.listMaxZiplistValue ≤ size)
    (encodes : Encodes entries size object texts) :
    ∃ next, listTypeTryConversion limits object value = some next ∧ Encodes entries size next texts ∧
      ∀ zl, next = .ziplist zl → text.length ≤ size := by
  cases encodes with
  | linkedlist nodes texts decoded =>
      refine ⟨.linkedlist nodes, by cases value <;> rfl, .linkedlist nodes texts decoded, ?_⟩
      intro zl same
      cases same
  | ziplist zl texts holds few short =>
      cases value with
      | int number =>
          have digits := ll2string_short number text decodes
          exact ⟨.ziplist zl, rfl, .ziplist zl texts holds few short, fun _ _ => by omega⟩
      | sds bytes =>
          cases decodes
          rw [listTypeTryConversion]
          split
          · obtain ⟨nodes, converted, decoded⟩ := convert_decodes zl texts holds
            refine ⟨.linkedlist nodes, converted, .linkedlist nodes texts decoded, ?_⟩
            intro zl same
            cases same
          · exact ⟨.ziplist zl, rfl, .ziplist zl texts holds few short, fun _ _ => by omega⟩

theorem sized_encodes (limits : Limits) (object : ListObject) (texts : List Bytes)
    (limited : limits.listMaxZiplistEntries ≤ entries) (encodes : Encodes entries size object texts) :
    ∃ next, convertLong limits object = some next ∧ Encodes entries size next texts ∧
      ∀ zl, next = .ziplist zl → (∃ old, object = .ziplist old) ∧ texts.length < entries := by
  cases encodes with
  | linkedlist nodes texts decoded =>
      refine ⟨.linkedlist nodes, rfl, .linkedlist nodes texts decoded, ?_⟩
      intro zl same
      cases same
  | ziplist zl texts holds few short =>
      obtain ⟨held, length, represents, rfl⟩ := holds
      obtain ⟨counted, count, measured, kept⟩ := ziplist_len zl held length represents
      rw [convertLong, measured]
      simp only [Option.bind_eq_bind, Option.bind_some]
      split
      · obtain ⟨nodes, converted, decoded⟩ := convert_decodes counted _ ⟨held, count, kept, rfl⟩
        refine ⟨.linkedlist nodes, converted, .linkedlist nodes _ decoded, ?_⟩
        intro zl same
        cases same
      · refine ⟨.ziplist counted, rfl, .ziplist counted _ ⟨held, count, kept, rfl⟩ few short, ?_⟩
        intro _ _
        rw [List.length_map]
        exact ⟨⟨zl, rfl⟩, by omega⟩

theorem push_members (side : Side) (texts : List Bytes) (text other : Bytes)
    (member : other ∈ Redis.listTypePush side texts text) : other = text ∨ other ∈ texts := by
  cases side with
  | head => exact List.mem_cons.mp member
  | tail =>
      rcases List.mem_append.mp member with old | new
      · exact .inr old
      · exact .inl (List.mem_singleton.mp new)

theorem push_length (side : Side) (texts : List Bytes) (text : Bytes) :
    (Redis.listTypePush side texts text).length = texts.length + 1 := by
  cases side with
  | head => rfl
  | tail => exact List.length_append

include wide fits in
theorem push_encodes (limits : Limits) (value : StringObject) (text : Bytes) (side : Side) (object : ListObject)
    (texts : List Bytes) (decodes : getDecodedObject value = some text)
    (limited : limits.listMaxZiplistEntries ≤ entries ∧ limits.listMaxZiplistValue ≤ size)
    (encodes : Encodes entries size object texts) :
    ∃ next, listTypePush junk limits object value side = some next ∧
      Encodes entries size next (Redis.listTypePush side texts text) := by
  obtain ⟨tried, conversion, triedEncodes, textShort⟩ :=
    tried_encodes entries size wide limits value text object texts decodes limited.2 encodes
  obtain ⟨sized, conversions, sizedEncodes, more⟩ := sized_encodes entries size limits tried texts limited.1 triedEncodes
  rw [listTypePush, conversion]
  simp only [Option.bind_eq_bind, Option.bind_some, conversions]
  cases sizedEncodes with
  | linkedlist nodes texts decoded =>
      refine ⟨_, rfl, .linkedlist _ _ ?_⟩
      cases side with
      | head => rw [Redis.listTypePush, List.map_cons, decodes, decoded, Redis.listTypePush, List.map_cons]
      | tail =>
          rw [Redis.listTypePush, List.map_append, List.map_singleton, decodes, decoded, Redis.listTypePush,
            List.map_append, List.map_singleton]
  | ziplist zl texts holds few short =>
      obtain ⟨⟨old, same⟩, fewer⟩ := more zl rfl
      have textBound := textShort old same
      have held := capacity_le size texts short
      have encoded := zip_encode_le text
      have product := Nat.mul_le_mul_right (14 + size) fewer
      rw [Nat.succ_mul] at product
      obtain ⟨next, pushed, kept⟩ := push_holds junk zl text side texts holds (by omega)
      rw [pushObject, decodes]
      simp only [Option.bind_eq_bind, Option.bind_some, pushed]
      refine ⟨.ziplist next, rfl, .ziplist next _ kept ?_ ?_⟩
      · rw [push_length]
        exact fewer
      · intro other member
        rcases push_members side texts text other member with rfl | old
        · exact textBound
        · exact short other old

theorem pop_members (side : Side) (texts left : List Bytes) (text : Bytes)
    (pops : Redis.listTypePop side texts = some (text, left)) : left.length ≤ texts.length ∧ ∀ other ∈ left, other ∈ texts := by
  cases side with
  | head =>
      obtain ⟨_, _, pair⟩ := Option.map_eq_some_iff.mp pops
      cases pair
      exact ⟨by rw [List.length_tail]; omega, fun other member => List.mem_of_mem_tail member⟩
  | tail =>
      obtain ⟨_, _, pair⟩ := Option.map_eq_some_iff.mp pops
      cases pair
      exact ⟨by rw [List.length_dropLast]; omega, fun other member => List.mem_of_mem_dropLast member⟩

-- Popping commutes with a map over the list.
theorem pop_map {α β : Type} (f : α → β) (side : Side) (items : List α) :
    Redis.listTypePop side (items.map f) = (Redis.listTypePop side items).map fun popped => (f popped.1, popped.2.map f) := by
  cases side with
  | head => cases items <;> rfl
  | tail =>
      rw [Redis.listTypePop, Redis.listTypePop, List.getLast?_map, Option.map_map, Option.map_map, ← List.map_dropLast]
      rfl

theorem pop_encodes (side : Side) (object : ListObject) (texts left : List Bytes) (text : Bytes)
    (encodes : Encodes entries size object texts) (pops : Redis.listTypePop side texts = some (text, left)) :
    ∃ value next, listTypePop junk object side = some (some value, next) ∧ getDecodedObject value = some text ∧
      Encodes entries size next left := by
  cases encodes with
  | ziplist zl texts holds few short =>
      obtain ⟨p, element, next, index, got, bytes, deleted, kept⟩ := pop_holds junk zl side text texts left holds pops
      obtain ⟨fewer, members⟩ := pop_members side texts left text pops
      refine ⟨createString element, .ziplist next, ?_, ?_, .ziplist next left kept (by omega) ?_⟩
      · rw [listTypePop, index]
        simp only [Option.bind_eq_bind, Option.bind_some, got, deleted]
      · rw [decoded_string, bytes]
      · exact fun other member => short other (members other member)
  | linkedlist nodes texts decoded =>
      have both := congrArg (Redis.listTypePop side) decoded
      rw [pop_map, pop_map, pops] at both
      obtain ⟨popped, taken, pair⟩ := Option.map_eq_some_iff.mp both
      obtain ⟨decodes, rest⟩ := Prod.mk.inj pair
      refine ⟨popped.1, .linkedlist popped.2, ?_, decodes, .linkedlist popped.2 left rest⟩
      rw [listTypePop, taken]

end Bounded

end Refinement

end AppFit.Redis.Encoded
