import Mathlib.Data.List.Basic
import Mathlib.Data.UInt
import Mathlib.Tactic.Ring

/- A block of memory as the list of its bytes, with the accesses of C to it: none is
   an access outside the block. The bytes that a larger block gets at its end are
   arbitrary. -/
set_option autoImplicit false

namespace AppFit.Memory

abbrev Bytes := List UInt8

def load (block : Bytes) (offset size : Nat) : Option Bytes :=
  if offset + size ≤ block.length then some ((block.drop offset).take size) else none

def store (block : Bytes) (offset : Nat) (bytes : Bytes) : Option Bytes :=
  if offset + bytes.length ≤ block.length then
    some (block.take offset ++ bytes ++ block.drop (offset + bytes.length))
  else none

def memmove (block : Bytes) (target source size : Nat) : Option Bytes :=
  (load block source size).bind (store block target)

def realloc (junk : Bytes → Nat → UInt8) (block : Bytes) (size : Nat) : Bytes :=
  block.take size ++ (List.range (size - block.length)).map (junk block)

def little : Nat → Nat → Bytes
  | 0, _ => []
  | width + 1, value => UInt8.ofNat value :: little width (value / 256)

def ofLittle : Bytes → Nat
  | [] => 0
  | byte :: rest => byte.toNat + 256 * ofLittle rest

def big (width value : Nat) : Bytes := (little width value).reverse

def ofBig (bytes : Bytes) : Nat := ofLittle bytes.reverse

theorem load_span (front span back : Bytes) : load (front ++ span ++ back) front.length span.length = some span := by
  rw [load, if_pos (by simp), List.append_assoc, List.drop_left, List.take_left]

theorem store_span (front old back bytes : Bytes) (same : bytes.length = old.length) :
    store (front ++ old ++ back) front.length bytes = some (front ++ bytes ++ back) := by
  have taken : (front ++ old ++ back).take front.length = front := by rw [List.append_assoc, List.take_left]
  have left : (front ++ old ++ back).drop (front.length + bytes.length) = back := by
    rw [same, ← List.length_append, List.drop_left]
  rw [store, if_pos (by simp [same]), taken, left]

theorem byte_here (front back : Bytes) (byte : UInt8) : (front ++ byte :: back)[front.length]? = some byte := by
  simp

theorem byte_after (front back : Bytes) (first second : UInt8) :
    (front ++ first :: second :: back)[front.length + 1]? = some second := by
  simp

theorem load_after (front span back : Bytes) (first : UInt8) :
    load (front ++ first :: (span ++ back)) (front.length + 1) span.length = some span := by
  have loaded := load_span (front ++ [first]) span back
  rwa [List.length_append, List.length_singleton, List.append_assoc, List.append_assoc, List.singleton_append] at loaded

theorem byte_value (value : Nat) (small : value < 256) : (UInt8.ofNat value).toNat = value :=
  UInt8.toNat_ofNat_of_lt' small

theorem load_size (block bytes : Bytes) (offset size : Nat) (loaded : load block offset size = some bytes) :
    bytes.length = size := by
  rw [load] at loaded
  split at loaded
  · rename_i inside
    cases loaded
    rw [List.length_take, List.length_drop]
    omega
  · cases loaded

-- What is loaded together is loaded in two parts.
theorem load_parts (block first second : Bytes) (offset size more : Nat) (before : load block offset size = some first)
    (after : load block (offset + size) more = some second) : load block offset (size + more) = some (first ++ second) := by
  rw [load] at before after ⊢
  split at before
  · split at after
    · cases before
      cases after
      rw [if_pos (by omega), List.take_add, List.drop_drop]
    · cases after
  · cases before

theorem load_some (block : Bytes) (offset size : Nat) (inside : offset + size ≤ block.length) :
    ∃ bytes, load block offset size = some bytes :=
  ⟨_, if_pos inside⟩

theorem realloc_grown (junk : Bytes → Nat → UInt8) (block : Bytes) (more : Nat) :
    ∃ fresh : Bytes, fresh.length = more ∧ realloc junk block (block.length + more) = block ++ fresh := by
  refine ⟨(List.range more).map (junk block), by simp, ?_⟩
  rw [realloc, List.take_of_length_le (Nat.le_add_right _ _), Nat.add_sub_cancel_left]

theorem realloc_shrunk (junk : Bytes → Nat → UInt8) (front back : Bytes) :
    realloc junk (front ++ back) front.length = front := by
  rw [realloc, List.take_left, Nat.sub_eq_zero_of_le (by simp)]
  simp

@[simp] theorem little_length (width value : Nat) : (little width value).length = width := by
  induction width generalizing value with
  | zero => rfl
  | succ width ih => rw [little, List.length_cons, ih]

theorem of_little_little (width value : Nat) (fits : value < 256 ^ width) : ofLittle (little width value) = value := by
  induction width generalizing value with
  | zero =>
      rw [Nat.pow_zero] at fits
      exact (Nat.lt_one_iff.mp fits).symm
  | succ width ih =>
      have quotient : value / 256 < 256 ^ width := by
        rw [Nat.pow_succ] at fits
        exact Nat.div_lt_of_lt_mul (by rwa [Nat.mul_comm] at fits)
      rw [little, ofLittle, ih _ quotient, UInt8.toNat_ofNat']
      omega

@[simp] theorem big_length (width value : Nat) : (big width value).length = width := by
  rw [big, List.length_reverse, little_length]

theorem of_big_big (width value : Nat) (fits : value < 256 ^ width) : ofBig (big width value) = value := by
  rw [ofBig, big, List.reverse_reverse, of_little_little width value fits]

end AppFit.Memory
