import AppFit.Redis.Integers

/- The ziplists of Redis (ziplist.c), byte by byte: a header with the number of
   bytes, the offset of the last entry and the number of entries, then the entries,
   then 255. Each entry begins with the length of the one before it. Pointers are
   offsets into the block; none is an access outside of it. Lengths are exact as
   long as a block is shorter than 4 GiB. -/
set_option autoImplicit false

namespace AppFit.Redis

open AppFit.Memory

def zipEnd : UInt8 := 255

def zipIntSize (encoding : Nat) : Nat :=
  if encoding = 0xfe then 1
  else if encoding = 0xc0 then 2
  else if encoding = 0xf0 then 3
  else if encoding = 0xd0 then 4
  else if encoding = 0xe0 then 8
  else 0

def zipIsStr (encoding : Nat) : Bool := encoding < 0xc0

def zipEncodeLength (encoding rawlen : Nat) : Bytes :=
  if zipIsStr encoding then
    if rawlen ≤ 0x3f then [UInt8.ofNat rawlen]
    else if rawlen ≤ 0x3fff then [UInt8.ofNat (0x40 + rawlen / 256), UInt8.ofNat (rawlen % 256)]
    else 0x80 :: big 4 rawlen
  else [UInt8.ofNat encoding]

-- ZIP_DECODE_LENGTH: the encoding, the bytes that hold it and the length.
def zipDecodeLength (zl : Bytes) (p : Nat) : Option (Nat × Nat × Nat) :=
  zl[p]?.bind fun first =>
    if first.toNat < 0x40 then some (0, 1, first.toNat)
    else if first.toNat < 0x80 then zl[p + 1]?.map fun second => (0x40, 2, first.toNat % 0x40 * 256 + second.toNat)
    else if first.toNat < 0xc0 then (load zl (p + 1) 4).map fun length => (0x80, 5, ofBig length)
    else some (first.toNat, 1, zipIntSize first.toNat)

def zipPrevEncodeSize (len : Nat) : Nat := if len < 254 then 1 else 5

def zipPrevEncodeLengthForceLarge (len : Nat) : Bytes := 254 :: little 4 len

def zipPrevEncodeLength (len : Nat) : Bytes :=
  if len < 254 then [UInt8.ofNat len] else zipPrevEncodeLengthForceLarge len

def zipDecodePrevLenSize (zl : Bytes) (p : Nat) : Option Nat :=
  zl[p]?.map fun first => if first.toNat < 254 then 1 else 5

-- ZIP_DECODE_PREVLEN: the bytes that hold the length of the entry before, and the length.
def zipDecodePrevLen (zl : Bytes) (p : Nat) : Option (Nat × Nat) :=
  zl[p]?.bind fun first =>
    if first.toNat < 254 then some (1, first.toNat) else (load zl (p + 1) 4).map fun length => (5, ofLittle length)

def zipRawEntryLength (zl : Bytes) (p : Nat) : Option Nat := do
  let prevlensize ← zipDecodePrevLenSize zl p
  let (_, lensize, len) ← zipDecodeLength zl (p + prevlensize)
  some (prevlensize + lensize + len)

-- The smallest of the encodings that holds the number.
def zipIntEncoding (value : Int) : Nat :=
  if 0 ≤ value ∧ value ≤ 12 then 0xf1 + value.toNat
  else if -2 ^ 7 ≤ value ∧ value < 2 ^ 7 then 0xfe
  else if -2 ^ 15 ≤ value ∧ value < 2 ^ 15 then 0xc0
  else if -2 ^ 23 ≤ value ∧ value < 2 ^ 23 then 0xf0
  else if -2 ^ 31 ≤ value ∧ value < 2 ^ 31 then 0xd0
  else 0xe0

def zipTryEncoding (entry : Bytes) : Option (Int × Nat) :=
  if 32 ≤ entry.length ∨ entry.length = 0 then none
  else (string2ll entry).map fun value => (value, zipIntEncoding value)

-- The low bytes of the number; a number from 0 to 12 is in its encoding.
def zipSaveInteger (value : Int) (encoding : Nat) : Bytes :=
  little (zipIntSize encoding) (value % 256 ^ zipIntSize encoding).toNat

def signed (width value : Nat) : Int := if 2 * value < 256 ^ width then value else value - 256 ^ width

def zipLoadInteger (zl : Bytes) (p encoding : Nat) : Option Int :=
  if 0xf1 ≤ encoding ∧ encoding ≤ 0xfd then some (encoding % 16 - 1)
  else if zipIntSize encoding = 0 then none
  else (load zl p (zipIntSize encoding)).map fun bytes => signed (zipIntSize encoding) (ofLittle bytes)

structure ZlEntry where
  prevrawlensize : Nat
  prevrawlen : Nat
  lensize : Nat
  len : Nat
  encoding : Nat

def ZlEntry.headersize (entry : ZlEntry) : Nat := entry.prevrawlensize + entry.lensize

def zipEntry (zl : Bytes) (p : Nat) : Option ZlEntry := do
  let (prevrawlensize, prevrawlen) ← zipDecodePrevLen zl p
  let (encoding, lensize, len) ← zipDecodeLength zl (p + prevrawlensize)
  some ⟨prevrawlensize, prevrawlen, lensize, len, encoding⟩

inductive Element where
  | text (bytes : Bytes)
  | number (value : Int)

-- some none is the end of the list.
def ziplistGet (zl : Bytes) (p : Nat) : Option (Option Element) := do
  let here ← zl[p]?
  if here = zipEnd then some none
  else
    let entry ← zipEntry zl p
    if zipIsStr entry.encoding then
      let bytes ← load zl (p + entry.headersize) entry.len
      some (some (.text bytes))
    else
      let value ← zipLoadInteger zl (p + entry.headersize) entry.encoding
      some (some (.number value))

def ziplistHeaderSize : Nat := 10

def ziplistBytes (zl : Bytes) : Option Nat := (load zl 0 4).map ofLittle
def ziplistTailOffset (zl : Bytes) : Option Nat := (load zl 4 4).map ofLittle
def ziplistLength (zl : Bytes) : Option Nat := (load zl 8 2).map ofLittle

def setTailOffset (zl : Bytes) (offset : Nat) : Option Bytes := store zl 4 (little 4 offset)
def setLength (zl : Bytes) (length : Nat) : Option Bytes := store zl 8 (little 2 length)

def moveTail (zl : Bytes) (moves : Bool) (offset : Nat) : Option Bytes :=
  if moves then setTailOffset zl offset else some zl

-- The number of entries is no longer kept once it has reached 65535.
def ziplistIncrLength (zl : Bytes) (incr : Int) : Option Bytes := do
  let length ← ziplistLength zl
  if length < 65535 then setLength zl ((length + incr) % 65536).toNat else some zl

def ziplistNew : Bytes := little 4 (ziplistHeaderSize + 1) ++ little 4 ziplistHeaderSize ++ little 2 0 ++ [zipEnd]

section Blocks

variable (junk : Bytes → Nat → UInt8)

def ziplistResize (zl : Bytes) (len : Nat) : Option Bytes := do
  let counted ← store (realloc junk zl len) 0 (little 4 len)
  store counted (len - 1) [zipEnd]

-- The entry at np gets the bytes that its field lacks; everything behind moves.
def growField (zl : Bytes) (np curlen prevrawlensize rawlen : Nat) : Option Bytes := do
  let rawlensize := zipPrevEncodeSize rawlen
  let extra := rawlensize - prevrawlensize
  let resized ← ziplistResize junk zl (curlen + extra)
  let tail ← ziplistTailOffset resized
  let retailed ← moveTail resized (tail ≠ np) (tail + extra)
  let moved ← memmove retailed (np + rawlensize) (np + prevrawlensize) (curlen - np - prevrawlensize - 1)
  store moved np (zipPrevEncodeLength rawlen)

-- One pass of the loop for each entry that had to grow.
def cascadeLoop : Nat → Bytes → Nat → Nat → Option Bytes
  | 0, _, _, _ => none
  | passes + 1, zl, p, curlen => do
      let here ← zl[p]?
      if here = zipEnd then some zl
      else
        let cur ← zipEntry zl p
        let rawlen := cur.headersize + cur.len
        let rawlensize := zipPrevEncodeSize rawlen
        let following ← zl[p + rawlen]?
        if following = zipEnd then some zl
        else
          let next ← zipEntry zl (p + rawlen)
          if next.prevrawlen = rawlen then some zl
          else if next.prevrawlensize < rawlensize then
            let grown ← growField junk zl (p + rawlen) curlen next.prevrawlensize rawlen
            cascadeLoop passes grown (p + rawlen) (curlen + (rawlensize - next.prevrawlensize))
          else if rawlensize < next.prevrawlensize then
            store zl (p + rawlen) (zipPrevEncodeLengthForceLarge rawlen)
          else store zl (p + rawlen) (zipPrevEncodeLength rawlen)

def ziplistCascadeUpdate (zl : Bytes) (p : Nat) : Option Bytes := do
  let curlen ← ziplistBytes zl
  cascadeLoop junk zl.length zl p curlen

-- The loop that finds the end of the entries to be deleted, with their number.
def skipEntries (zl : Bytes) : Nat → Nat → Nat → Option (Nat × Nat)
  | 0, p, deleted => some (p, deleted)
  | num + 1, p, deleted => do
      let here ← zl[p]?
      if here = zipEnd then some (p, deleted)
      else
        let length ← zipRawEntryLength zl p
        skipEntries zl num (p + length) (deleted + 1)

-- What is left behind the deleted entries is moved to their start. nextdiff is by
-- how much the field of its first entry changes.
def moveForward (zl : Bytes) (start p prevrawlen curlen : Nat) (nextdiff : Int) : Option Bytes := do
  let q := (p - nextdiff).toNat
  let written ← store zl q (zipPrevEncodeLength prevrawlen)
  let tailOffset ← ziplistTailOffset written
  let retailed ← setTailOffset written (tailOffset - (p - start))
  let tail ← zipEntry retailed q
  let following ← retailed[q + tail.headersize + tail.len]?
  let adjusted ← moveTail retailed (following ≠ zipEnd) ((tailOffset - (p - start) : Nat) + nextdiff).toNat
  memmove adjusted start q (curlen - q - 1)

-- The entries between start and p are taken out.
def removeSpan (zl : Bytes) (start p prevrawlen deleted : Nat) : Option Bytes := do
  let curlen ← ziplistBytes zl
  let here ← zl[p]?
  let prevlensize ← zipDecodePrevLenSize zl p
  let nextdiff : Int := if here ≠ zipEnd then zipPrevEncodeSize prevrawlen - prevlensize else 0
  let moved ← (if here ≠ zipEnd then moveForward zl start p prevrawlen curlen nextdiff
    else setTailOffset zl (start - prevrawlen) : Option Bytes)
  let resized ← ziplistResize junk moved (curlen - (p - start : Nat) + nextdiff).toNat
  let counted ← ziplistIncrLength resized (-deleted)
  if nextdiff ≠ 0 then ziplistCascadeUpdate junk counted start else some counted

-- __ziplistDelete
def ziplistDeleteEntries (zl : Bytes) (start num : Nat) : Option Bytes := do
  let first ← zipEntry zl start
  let (p, deleted) ← skipEntries zl num start 0
  if p - start = 0 then some zl else removeSpan junk zl start p first.prevrawlen deleted

def insertPrevLen (zl : Bytes) (p : Nat) : Option Nat := do
  let here ← zl[p]?
  if here ≠ zipEnd then
    let (_, prevlen) ← zipDecodePrevLen zl p
    some prevlen
  else
    let ptail ← ziplistTailOffset zl
    let last ← zl[ptail]?
    if last ≠ zipEnd then zipRawEntryLength zl ptail else some 0

-- What stands at p is moved behind reqlen free bytes.
def moveBack (zl : Bytes) (p reqlen curlen : Nat) (nextdiff : Int) : Option Bytes := do
  let moved ← memmove zl (p + reqlen) (p - nextdiff).toNat (curlen - p - 1 + nextdiff).toNat
  let written ← store moved (p + reqlen) (zipPrevEncodeLength reqlen)
  let tailOffset ← ziplistTailOffset written
  let retailed ← setTailOffset written (tailOffset + reqlen)
  let tail ← zipEntry retailed (p + reqlen)
  let following ← retailed[p + reqlen + tail.headersize + tail.len]?
  moveTail retailed (following ≠ zipEnd) ((tailOffset + reqlen : Nat) + nextdiff).toNat

-- __ziplistInsert up to the cascade.
def makeRoom (zl : Bytes) (p reqlen : Nat) : Option Bytes := do
  let curlen ← ziplistBytes zl
  let here ← zl[p]?
  let prevlensize ← zipDecodePrevLenSize zl p
  let nextdiff : Int := if here ≠ zipEnd then zipPrevEncodeSize reqlen - prevlensize else 0
  let resized ← ziplistResize junk zl (curlen + reqlen + nextdiff).toNat
  let again ← resized[p]?
  let moved ← (if again ≠ zipEnd then moveBack resized p reqlen curlen nextdiff else setTailOffset resized p : Option Bytes)
  if nextdiff ≠ 0 then ziplistCascadeUpdate junk moved (p + reqlen) else some moved

-- What is written behind the length of the entry before.
def zipEncode (s : Bytes) : Bytes :=
  match zipTryEncoding s with
  | some (value, encoding) => zipEncodeLength encoding s.length ++ zipSaveInteger value encoding
  | none => zipEncodeLength 0 s.length ++ s

-- __ziplistInsert
def ziplistInsert (zl : Bytes) (p : Nat) (s : Bytes) : Option Bytes := do
  let prevlen ← insertPrevLen zl p
  let room ← makeRoom junk zl p (zipPrevEncodeSize prevlen + (zipEncode s).length)
  let written ← store room p (zipPrevEncodeLength prevlen ++ zipEncode s)
  ziplistIncrLength written 1

end Blocks

end AppFit.Redis
