import AppFit.Redis.Ziplist

/- What the bytes of a ziplist mean: its entries in order, each with the length of
   the entry before it in one byte or in five. -/
set_option autoImplicit false

namespace AppFit.Redis

open AppFit.Memory

theorem string2ll_range (text : Bytes) (value : Int) (read : string2ll text = some value) :
    -2 ^ 63 ≤ value ∧ value < 2 ^ 63 := by
  cases text with
  | nil => cases read
  | cons first rest =>
      rw [string2ll] at read
      split at read
      · cases read
        decide
      · split at read
        · obtain ⟨v, _, bounded⟩ := Option.bind_eq_some_iff.mp read
          split at bounded
          · cases bounded
          · rename_i small
            cases bounded
            rw [llongMax] at small
            omega
        · obtain ⟨v, _, bounded⟩ := Option.bind_eq_some_iff.mp read
          split at bounded
          · cases bounded
          · rename_i small
            cases bounded
            rw [llongMax] at small
            omega

-- The encodings of numbers, with the numbers that each of them is for.
theorem int_encoding_cases (value : Int) (least : -2 ^ 63 ≤ value) (most : value < 2 ^ 63) :
    (0 ≤ value ∧ value ≤ 12 ∧ zipIntEncoding value = 0xf1 + value.toNat) ∨
      (zipIntEncoding value ∈ [0xfe, 0xc0, 0xf0, 0xd0, 0xe0] ∧
        -256 ^ zipIntSize (zipIntEncoding value) ≤ 2 * value ∧ 2 * value < 256 ^ zipIntSize (zipIntEncoding value)) := by
  rw [zipIntEncoding]
  split_ifs with immediate
  · exact .inl ⟨immediate.1, immediate.2, rfl⟩
  · exact .inr ⟨by decide, by rw [zipIntSize]; norm_num; omega, by rw [zipIntSize]; norm_num; omega⟩
  · exact .inr ⟨by decide, by rw [zipIntSize]; norm_num; omega, by rw [zipIntSize]; norm_num; omega⟩
  · exact .inr ⟨by decide, by rw [zipIntSize]; norm_num; omega, by rw [zipIntSize]; norm_num; omega⟩
  · exact .inr ⟨by decide, by rw [zipIntSize]; norm_num; omega, by rw [zipIntSize]; norm_num; omega⟩
  · exact .inr ⟨by decide, by rw [zipIntSize]; norm_num; omega, by rw [zipIntSize]; norm_num; omega⟩

theorem signed_low (width : Nat) (value : Int) (least : -256 ^ width ≤ 2 * value) (most : 2 * value < 256 ^ width) :
    signed width (value % 256 ^ width).toNat = value := by
  have positive : (0 : Int) < 256 ^ width := by positivity
  have cast : ((256 ^ width : Nat) : Int) = 256 ^ width := by push_cast; rfl
  rw [signed]
  rcases Int.lt_or_le value 0 with negative | natural
  · have wrapped : value % 256 ^ width = value + 256 ^ width := by
      rw [← Int.add_emod_right]
      exact Int.emod_eq_of_lt (by omega) (by omega)
    rw [if_neg (by omega), wrapped]
    omega
  · rw [Int.emod_eq_of_lt natural (by omega), if_pos (by omega)]
    exact Int.toNat_of_nonneg natural

theorem int_size_large (encoding : Nat) (listed : encoding ∈ [0xfe, 0xc0, 0xf0, 0xd0, 0xe0]) :
    0xc0 ≤ encoding ∧ encoding < 0xff ∧ zipIntSize encoding ≠ 0 ∧ ¬(0xf1 ≤ encoding ∧ encoding ≤ 0xfd) := by
  revert encoding
  decide

theorem int_encoding_bounds (value : Int) (least : -2 ^ 63 ≤ value) (most : value < 2 ^ 63) :
    0xc0 ≤ zipIntEncoding value ∧ zipIntEncoding value < 0xff := by
  rcases int_encoding_cases value least most with immediate | listed
  · omega
  · obtain ⟨large, small, _⟩ := int_size_large _ listed.1
    exact ⟨large, small⟩

theorem load_integer (front back : Bytes) (value : Int) (least : -2 ^ 63 ≤ value) (most : value < 2 ^ 63) :
    zipLoadInteger (front ++ zipSaveInteger value (zipIntEncoding value) ++ back) front.length (zipIntEncoding value) =
      some value := by
  rw [zipLoadInteger]
  rcases int_encoding_cases value least most with ⟨low, high, immediate⟩ | ⟨listed, lower, upper⟩
  · rw [if_pos (by omega), immediate]
    congr 1
    omega
  · obtain ⟨_, _, nonzero, large⟩ := int_size_large _ listed
    have loaded := load_span front (zipSaveInteger value (zipIntEncoding value)) back
    rw [zipSaveInteger, little_length] at loaded
    have positive : (0 : Int) < 256 ^ zipIntSize (zipIntEncoding value) := by positivity
    have below := Int.emod_lt_of_pos value positive
    have kept := of_little_little (zipIntSize (zipIntEncoding value))
      (value % 256 ^ zipIntSize (zipIntEncoding value)).toNat (by
        zify
        rw [Int.toNat_of_nonneg (Int.emod_nonneg value positive.ne')]
        exact below)
    rw [if_neg large, if_neg nonzero, zipSaveInteger, loaded, Option.map_some, kept, signed_low _ value lower upper]

-- The length is read back, and a text is told from a number.
theorem decode_length_text (front back : Bytes) (rawlen : Nat) (fits : rawlen < 2 ^ 32) :
    ∃ encoding, zipIsStr encoding = true ∧
      zipDecodeLength (front ++ zipEncodeLength 0 rawlen ++ back) front.length =
        some (encoding, (zipEncodeLength 0 rawlen).length, rawlen) := by
  have str : zipIsStr 0 = true := rfl
  rw [zipEncodeLength, if_pos str]
  split_ifs with short medium
  · refine ⟨0, rfl, ?_⟩
    rw [List.append_assoc, List.singleton_append, zipDecodeLength, byte_here, Option.bind_some,
      byte_value rawlen (by omega), if_pos (by omega)]
    rfl
  · refine ⟨0x40, rfl, ?_⟩
    have first := byte_value (0x40 + rawlen / 256) (by omega)
    have second := byte_value (rawlen % 256) (by omega)
    have whole : (0x40 + rawlen / 256) % 0x40 * 256 + rawlen % 256 = rawlen := by omega
    rw [List.append_assoc, List.cons_append, List.singleton_append, zipDecodeLength, byte_here, Option.bind_some,
      first, if_neg (by omega), if_pos (by omega), byte_after, Option.map_some, second, whole]
    rfl
  · refine ⟨0x80, rfl, ?_⟩
    have loaded := load_after front (big 4 rawlen) back 0x80
    rw [big_length] at loaded
    rw [List.append_assoc, List.cons_append, zipDecodeLength, byte_here, Option.bind_some, if_neg (by decide),
      if_neg (by decide), if_pos (by decide), loaded, Option.map_some, of_big_big 4 rawlen (by omega), List.length_cons,
      big_length]

theorem decode_length_number (front back : Bytes) (rawlen encoding : Nat) (large : 0xc0 ≤ encoding)
    (small : encoding < 0xff) :
    zipDecodeLength (front ++ zipEncodeLength encoding rawlen ++ back) front.length =
      some (encoding, 1, zipIntSize encoding) ∧ (zipEncodeLength encoding rawlen).length = 1 := by
  have number : zipIsStr encoding = false := by
    rw [zipIsStr, decide_eq_false_iff_not]
    omega
  have byte := byte_value encoding (by omega)
  rw [zipEncodeLength, number, if_neg Bool.false_ne_true]
  refine ⟨?_, rfl⟩
  rw [List.append_assoc, List.singleton_append, zipDecodeLength, byte_here, Option.bind_some, byte, if_neg (by omega),
    if_neg (by omega), if_neg (by omega)]

-- An entry as it is written: the field of the length before it in five bytes or
-- in one, then its own bytes.
structure Entry where
  wide : Bool
  value : Bytes

def fieldSize (wide : Bool) : Nat := if wide then 5 else 1

def prevField (wide : Bool) (prev : Nat) : Bytes :=
  if wide then zipPrevEncodeLengthForceLarge prev else [UInt8.ofNat prev]

def Entry.size (entry : Entry) : Nat := fieldSize entry.wide + (zipEncode entry.value).length

def layout (prev : Nat) : List Entry → Bytes
  | [] => []
  | entry :: rest => prevField entry.wide prev ++ zipEncode entry.value ++ layout entry.size rest

-- Every length fits into its field.
def Fitting (prev : Nat) : List Entry → Prop
  | [] => True
  | entry :: rest => (entry.wide = false → prev < 254) ∧ Fitting entry.size rest

theorem field_length (wide : Bool) (prev : Nat) : (prevField wide prev).length = fieldSize wide := by
  cases wide with
  | true => simp [prevField, fieldSize, zipPrevEncodeLengthForceLarge]
  | false => rfl

-- Its first byte is never the one that ends the list.
theorem field_start (wide : Bool) (prev : Nat) (fits : wide = false → prev < 254) :
    ∃ first rest, prevField wide prev = first :: rest ∧ first ≠ zipEnd ∧ (first.toNat < 254 ↔ wide = false) := by
  cases wide with
  | true => exact ⟨254, little 4 prev, rfl, by decide, by decide⟩
  | false =>
      have small := fits rfl
      have byte := byte_value prev (by omega)
      refine ⟨UInt8.ofNat prev, [], rfl, ?_, ?_⟩
      · intro same
        have value := congrArg UInt8.toNat same
        rw [byte] at value
        exact absurd value (Nat.ne_of_lt (Nat.lt_succ_of_lt small))
      · rw [byte]
        exact ⟨fun _ => rfl, fun _ => small⟩

theorem decode_prev_size (front back : Bytes) (wide : Bool) (prev : Nat) (fits : wide = false → prev < 254) :
    zipDecodePrevLenSize (front ++ prevField wide prev ++ back) front.length = some (fieldSize wide) := by
  obtain ⟨first, rest, field, _, narrow⟩ := field_start wide prev fits
  rw [zipDecodePrevLenSize, field, List.append_assoc, List.cons_append, byte_here, Option.map_some, fieldSize]
  cases wide with
  | true => rw [if_neg (by simp [narrow]), if_pos rfl]
  | false => rw [if_pos (by simp [narrow]), if_neg Bool.false_ne_true]

theorem decode_prev (front back : Bytes) (wide : Bool) (prev : Nat) (fits : wide = false → prev < 254)
    (bound : prev < 2 ^ 32) :
    zipDecodePrevLen (front ++ prevField wide prev ++ back) front.length = some (fieldSize wide, prev) := by
  cases wide with
  | true =>
      have loaded := load_after front (little 4 prev) back 254
      rw [little_length] at loaded
      rw [prevField, if_pos rfl, zipPrevEncodeLengthForceLarge, List.append_assoc, List.cons_append, zipDecodePrevLen,
        byte_here, Option.bind_some, if_neg (by decide), loaded, Option.map_some, of_little_little 4 prev (by omega)]
      rfl
  | false =>
      have small := fits rfl
      rw [prevField, if_neg Bool.false_ne_true, List.append_assoc, List.singleton_append, zipDecodePrevLen, byte_here,
        Option.bind_some, byte_value prev (by omega), if_pos small]
      rfl

def Element.bytes : Element → Option Bytes
  | .text bytes => some bytes
  | .number value => ll2string value

theorem try_encoding_some (value : Bytes) (number : Int) (encoding : Nat)
    (encoded : zipTryEncoding value = some (number, encoding)) :
    string2ll value = some number ∧ encoding = zipIntEncoding number := by
  rw [zipTryEncoding] at encoded
  split at encoded
  · cases encoded
  · obtain ⟨read, found, pair⟩ := Option.map_eq_some_iff.mp encoded
    cases pair
    exact ⟨found, rfl⟩

-- What the bytes of an entry's value say, wherever they stand.
theorem decode_value (front back value : Bytes) (fits : value.length < 2 ^ 32) :
    ∃ encoding lensize len,
      zipDecodeLength (front ++ zipEncode value ++ back) front.length = some (encoding, lensize, len) ∧
      lensize + len = (zipEncode value).length ∧
      ((zipIsStr encoding = true ∧ load (front ++ zipEncode value ++ back) (front.length + lensize) len = some value) ∨
        zipIsStr encoding = false ∧ ∃ number,
          zipLoadInteger (front ++ zipEncode value ++ back) (front.length + lensize) encoding = some number ∧
          ll2string number = some value) := by
  rw [zipEncode]
  cases encoded : zipTryEncoding value with
  | none =>
      obtain ⟨encoding, str, decoded⟩ := decode_length_text front (value ++ back) value.length fits
      refine ⟨encoding, (zipEncodeLength 0 value.length).length, value.length, ?_, ?_, .inl ⟨str, ?_⟩⟩
      · rw [← decoded]
        simp only [List.append_assoc]
      · rw [List.length_append]
      · have loaded := load_span (front ++ zipEncodeLength 0 value.length) value back
        rw [List.length_append] at loaded
        rw [← loaded]
        simp only [List.append_assoc]
  | some pair =>
      obtain ⟨number, encoding⟩ := pair
      obtain ⟨read, rfl⟩ := try_encoding_some value number encoding encoded
      obtain ⟨least, most⟩ := string2ll_range value number read
      obtain ⟨large, small⟩ := int_encoding_bounds number least most
      obtain ⟨decoded, one⟩ := decode_length_number front (zipSaveInteger number (zipIntEncoding number) ++ back)
        value.length (zipIntEncoding number) large small
      refine ⟨zipIntEncoding number, 1, zipIntSize (zipIntEncoding number), ?_, ?_, .inr ⟨?_, number, ?_, ?_⟩⟩
      · rw [← decoded]
        simp only [List.append_assoc]
      · rw [List.length_append, one, zipSaveInteger, little_length]
      · rw [zipIsStr, decide_eq_false_iff_not]
        omega
      · have loaded := load_integer (front ++ zipEncodeLength (zipIntEncoding number) value.length) back number least most
        rw [List.length_append, one] at loaded
        rw [← loaded]
        simp only [List.append_assoc]
      · exact string2ll_text value number read

-- Where an entry stands: what it is behind, what it holds and what follows.
section Standing

variable (front back : Bytes) (entry : Entry) (prev : Nat) (fits : entry.wide = false → prev < 254)
  (short : entry.value.length < 2 ^ 32)

def standing : Bytes := front ++ (prevField entry.wide prev ++ zipEncode entry.value ++ back)

include fits in
theorem standing_start : ∃ first, (standing front back entry prev)[front.length]? = some first ∧ first ≠ zipEnd := by
  obtain ⟨first, rest, field, other, _⟩ := field_start entry.wide prev fits
  refine ⟨first, ?_, other⟩
  rw [standing, field]
  exact byte_here front _ first

include fits in
theorem standing_prev_size :
    zipDecodePrevLenSize (standing front back entry prev) front.length = some (fieldSize entry.wide) := by
  have decoded := decode_prev_size front (zipEncode entry.value ++ back) entry.wide prev fits
  rw [← decoded, standing]
  simp only [List.append_assoc]

theorem standing_value : standing front back entry prev =
    front ++ prevField entry.wide prev ++ zipEncode entry.value ++ back := by
  rw [standing]
  simp only [List.append_assoc]

theorem standing_value_start : front.length + fieldSize entry.wide = (front ++ prevField entry.wide prev).length := by
  rw [List.length_append, field_length]

include fits short in
theorem raw_entry_length : zipRawEntryLength (standing front back entry prev) front.length = some entry.size := by
  obtain ⟨encoding, lensize, len, decoded, whole, _⟩ :=
    decode_value (front ++ prevField entry.wide prev) back entry.value short
  rw [zipRawEntryLength, standing_prev_size front back entry prev fits]
  simp only [Option.bind_eq_bind, Option.bind_some]
  rw [standing_value_start front entry prev, standing_value, decoded, Option.bind_some, Nat.add_assoc, whole, Entry.size]

include fits short in
theorem zip_entry (bound : prev < 2 ^ 32) :
    ∃ found, zipEntry (standing front back entry prev) front.length = some found ∧
      found.prevrawlensize = fieldSize entry.wide ∧ found.prevrawlen = prev ∧ found.headersize + found.len = entry.size ∧
      ((zipIsStr found.encoding = true ∧
          load (standing front back entry prev) (front.length + found.headersize) found.len = some entry.value) ∨
        zipIsStr found.encoding = false ∧ ∃ number,
          zipLoadInteger (standing front back entry prev) (front.length + found.headersize) found.encoding = some number ∧
          ll2string number = some entry.value) := by
  obtain ⟨encoding, lensize, len, decoded, whole, held⟩ :=
    decode_value (front ++ prevField entry.wide prev) back entry.value short
  have field := decode_prev front (zipEncode entry.value ++ back) entry.wide prev fits bound
  rw [← List.append_assoc, ← standing_value] at field
  rw [← standing_value, ← standing_value_start] at decoded held
  refine ⟨⟨fieldSize entry.wide, prev, lensize, len, encoding⟩, ?_, rfl, rfl, ?_, ?_⟩
  · rw [zipEntry, field]
    simp only [Option.bind_eq_bind, Option.bind_some]
    rw [decoded, Option.bind_some]
  · rw [ZlEntry.headersize, Nat.add_assoc, whole, Entry.size]
  · rw [ZlEntry.headersize]
    simp only [← Nat.add_assoc]
    exact held

include fits short in
theorem get_entry (bound : prev < 2 ^ 32) :
    ∃ element, ziplistGet (standing front back entry prev) front.length = some (some element) ∧
      element.bytes = some entry.value := by
  obtain ⟨first, here, other⟩ := standing_start front back entry prev fits
  obtain ⟨found, decoded, _, _, _, held⟩ := zip_entry front back entry prev fits short bound
  rw [ziplistGet, here]
  simp only [Option.bind_eq_bind, Option.bind_some, if_neg other, decoded]
  rcases held with ⟨str, loaded⟩ | ⟨number, value, loaded, text⟩
  · rw [if_pos str, loaded]
    exact ⟨.text entry.value, rfl, rfl⟩
  · rw [if_neg (by simp [number]), loaded]
    exact ⟨.number value, rfl, text⟩

end Standing

def header (bytes tail length : Nat) : Bytes := little 4 bytes ++ little 4 tail ++ little 2 length

-- A block with its length in the header and the end byte behind its content.
def assembled (tail length : Nat) (content : Bytes) : Bytes :=
  header (content.length + 11) tail length ++ (content ++ [zipEnd])

@[simp] theorem header_length (bytes tail length : Nat) : (header bytes tail length).length = 10 := by
  simp [header]

@[simp] theorem assembled_length (tail length : Nat) (content : Bytes) :
    (assembled tail length content).length = content.length + 11 := by
  rw [assembled, List.length_append, header_length, List.length_append, List.length_singleton]
  omega

def countedChange (length : Nat) (incr : Int) : Nat :=
  if length < 65535 then ((length + incr) % 65536).toNat else length

section Header

variable (tail length : Nat) (content : Bytes)

theorem assembled_bytes (bound : content.length + 11 < 2 ^ 32) :
    ziplistBytes (assembled tail length content) = some (content.length + 11) := by
  have loaded := load_span [] (little 4 (content.length + 11)) (little 4 tail ++ little 2 length ++ (content ++ [zipEnd]))
  rw [little_length, List.nil_append, List.length_nil] at loaded
  rw [ziplistBytes, assembled, header, List.append_assoc (little 4 _), List.append_assoc (little 4 _), loaded,
    Option.map_some, of_little_little 4 _ bound]

theorem assembled_tail (bound : tail < 2 ^ 32) : ziplistTailOffset (assembled tail length content) = some tail := by
  have loaded := load_span (little 4 (content.length + 11)) (little 4 tail) (little 2 length ++ (content ++ [zipEnd]))
  rw [little_length, little_length] at loaded
  rw [ziplistTailOffset, assembled, header, List.append_assoc, loaded, Option.map_some, of_little_little 4 _ bound]

theorem assembled_count (bound : length < 2 ^ 16) : ziplistLength (assembled tail length content) = some length := by
  have loaded := load_span (little 4 (content.length + 11) ++ little 4 tail) (little 2 length) (content ++ [zipEnd])
  rw [List.length_append, little_length, little_length, little_length] at loaded
  rw [ziplistLength, assembled, header, loaded, Option.map_some, of_little_little 2 _ bound]

theorem set_tail_assembled (offset : Nat) :
    setTailOffset (assembled tail length content) offset = some (assembled offset length content) := by
  have stored := store_span (little 4 (content.length + 11)) (little 4 tail) (little 2 length ++ (content ++ [zipEnd]))
    (little 4 offset) (by rw [little_length, little_length])
  rw [little_length] at stored
  rw [setTailOffset, assembled, header, List.append_assoc, stored, assembled, header, List.append_assoc _ (little 2 length)]

theorem move_tail_assembled (moves : Bool) (offset : Nat) :
    moveTail (assembled tail length content) moves offset =
      some (assembled (if moves then offset else tail) length content) := by
  rw [moveTail]
  split
  · exact set_tail_assembled tail length content offset
  · rfl

theorem set_length_assembled (count : Nat) :
    setLength (assembled tail length content) count = some (assembled tail count content) := by
  have stored := store_span (little 4 (content.length + 11) ++ little 4 tail) (little 2 length) (content ++ [zipEnd])
    (little 2 count) (by rw [little_length, little_length])
  rw [List.length_append, little_length, little_length] at stored
  rw [setLength, assembled, header, stored, assembled, header]

theorem incr_length_assembled (bound : length < 2 ^ 16) (incr : Int) :
    ziplistIncrLength (assembled tail length content) incr =
      some (assembled tail (countedChange length incr) content) := by
  rw [ziplistIncrLength, assembled_count tail length content bound, countedChange]
  simp only [Option.bind_eq_bind, Option.bind_some]
  split
  · rw [set_length_assembled]
  · rfl

theorem behind_header (bytes : Nat) (front : Bytes) :
    (header bytes tail length ++ front).length = 10 + front.length := by
  rw [List.length_append, header_length]

theorem store_content (front old back bytes : Bytes) (same : bytes.length = old.length) :
    store (assembled tail length (front ++ old ++ back)) (10 + front.length) bytes =
      some (assembled tail length (front ++ bytes ++ back)) := by
  have sizes : (front ++ bytes ++ back).length = (front ++ old ++ back).length := by
    simp only [List.length_append, same]
  have stored := store_span (header ((front ++ old ++ back).length + 11) tail length ++ front) old (back ++ [zipEnd]) bytes
    same
  rw [behind_header] at stored
  rw [assembled, assembled, sizes, ← List.append_assoc _ (front ++ old ++ back), ← List.append_assoc _ (front ++ old),
    ← List.append_assoc _ front, List.append_assoc _ back, stored]
  simp only [List.append_assoc]

theorem load_content (front span back : Bytes) :
    load (assembled tail length (front ++ span ++ back)) (10 + front.length) span.length = some span := by
  have loaded := load_span (header ((front ++ span ++ back).length + 11) tail length ++ front) span (back ++ [zipEnd])
  rw [behind_header] at loaded
  rw [← loaded, assembled]
  simp only [List.append_assoc]

theorem set_bytes (bytes len : Nat) (rest : Bytes) :
    store (header bytes tail length ++ rest) 0 (little 4 len) = some (header len tail length ++ rest) := by
  have stored := store_span [] (little 4 bytes) (little 4 tail ++ little 2 length ++ rest) (little 4 len)
    (by rw [little_length, little_length])
  rw [header, header, List.append_assoc (little 4 _), List.append_assoc (little 4 _), List.append_assoc (little 4 len),
    List.append_assoc (little 4 len)]
  exact stored

-- The last byte of a block of the new length ends the list.
theorem resize_ends (junk : Bytes → Nat → UInt8) (zl content : Bytes) (bytes : Nat) (last : UInt8)
    (sized : realloc junk zl (content.length + 11) = header bytes tail length ++ (content ++ [last])) :
    ziplistResize junk zl (content.length + 11) = some (assembled tail length content) := by
  have ended := store_span (header (content.length + 11) tail length ++ content) [last] [] [zipEnd] rfl
  rw [behind_header, List.append_nil, List.append_nil, List.append_assoc, List.append_assoc] at ended
  have place : content.length + 11 - 1 = 10 + content.length := by omega
  rw [ziplistResize, sized, set_bytes]
  simp only [Option.bind_eq_bind, Option.bind_some]
  rw [place, ended, assembled]

variable (junk : Bytes → Nat → UInt8)

-- The byte where the list ended is kept when the block grows.
theorem resize_grown (more : Nat) :
    ∃ fresh : Bytes, fresh.length = more ∧ (∃ rest, fresh ++ [zipEnd] = zipEnd :: rest) ∧
      ziplistResize junk (assembled tail length content) (content.length + 11 + more) =
        some (assembled tail length (content ++ fresh)) := by
  obtain ⟨bytes, size, grown⟩ := realloc_grown junk (assembled tail length content) more
  rw [assembled_length] at grown
  rcases List.eq_nil_or_concat bytes with rfl | ⟨start, last, rfl⟩
  · rw [List.length_nil] at size
    subst size
    refine ⟨[], rfl, ⟨[], rfl⟩, ?_⟩
    rw [List.append_nil]
    exact resize_ends tail length junk _ content (content.length + 11) zipEnd (by rw [grown, List.append_nil, assembled])
  · rw [List.length_concat] at size
    refine ⟨zipEnd :: start, size, ⟨start ++ [zipEnd], rfl⟩, ?_⟩
    have whole : content.length + 11 + more = (content ++ zipEnd :: start).length + 11 := by
      rw [List.length_append, List.length_cons]
      omega
    rw [whole] at grown ⊢
    refine resize_ends tail length junk _ _ (content.length + 11) last ?_
    rw [grown, assembled]
    simp only [List.append_assoc, List.cons_append, List.nil_append, List.concat_eq_append]

theorem resize_shrunk (front back : Bytes) :
    ziplistResize junk (assembled tail length (front ++ back)) (front.length + 11) =
      some (assembled tail length front) := by
  obtain ⟨first, rest, split⟩ : ∃ first rest, back ++ [zipEnd] = first :: rest :=
    List.exists_cons_of_ne_nil (List.append_ne_nil_of_right_ne_nil _ (List.cons_ne_nil _ _))
  have shrunk := realloc_shrunk junk (header ((front ++ back).length + 11) tail length ++ (front ++ [first])) rest
  rw [behind_header] at shrunk
  have shape : assembled tail length (front ++ back) =
      header ((front ++ back).length + 11) tail length ++ (front ++ [first]) ++ rest := by
    rw [assembled, List.append_assoc front, split]
    simp only [List.append_assoc, List.singleton_append]
  have place : 10 + (front ++ [first]).length = front.length + 11 := by
    rw [List.length_append, List.length_singleton]
    omega
  rw [← shape, place] at shrunk
  exact resize_ends tail length junk _ front ((front ++ back).length + 11) first shrunk

end Header

end AppFit.Redis
