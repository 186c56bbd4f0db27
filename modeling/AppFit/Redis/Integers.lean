import AppFit.Lib.Memory
import Mathlib.Data.Nat.Digits.Lemmas

/- Numbers as texts in Redis (util.c): string2ll accepts a text only when ll2string
   gives the very same text back, so that a list may keep it as an integer. -/
set_option autoImplicit false

namespace AppFit.Redis

open AppFit.Memory

def ullongMax : Nat := 2 ^ 64 - 1
def llongMax : Nat := 2 ^ 63 - 1

def isDigit (char : UInt8) : Bool := 48 ≤ char && char ≤ 57

def digitOf (char : UInt8) : Nat := char.toNat - 48

-- The loop over the digits; one that is no digit leaves bytes unused.
def readDigits (v : Nat) : Bytes → Option Nat
  | [] => some v
  | char :: rest =>
      if isDigit char then
        if ullongMax / 10 < v then none
        else if ullongMax - digitOf char < v * 10 then none
        else readDigits (v * 10 + digitOf char) rest
      else none

def readUnsigned : Bytes → Option Nat
  | [] => none
  | first :: rest => if 49 ≤ first && first ≤ 57 then readDigits (digitOf first) rest else none

def string2ll : Bytes → Option Int
  | [] => none
  | first :: rest =>
      if first = 48 ∧ rest = [] then some 0
      else if first = 45 then
        (readUnsigned rest).bind fun v => if llongMax + 1 < v then none else some (-v)
      else (readUnsigned (first :: rest)).bind fun v => if llongMax < v then none else some v

def digits10 (v : Nat) : Nat :=
  if v < 10 then 1
  else if v < 100 then 2
  else if v < 1000 then 3
  else if v < 1000000000000 then
    if v < 100000000 then
      if v < 1000000 then
        if v < 10000 then 4 else 5 + if 100000 ≤ v then 1 else 0
      else 7 + if 10000000 ≤ v then 1 else 0
    else if v < 10000000000 then 9 + if 1000000000 ≤ v then 1 else 0
    else 11 + if 100000000000 ≤ v then 1 else 0
  else 12 + digits10 (v / 1000000000000)
termination_by v
decreasing_by omega

def digitChar (digit : Nat) : UInt8 := UInt8.ofNat (48 + digit)

-- Two characters of the table of all numbers below 100.
def digitPair (i : Nat) : Bytes := [digitChar (i / 10), digitChar (i % 10)]

-- A 64 bit number takes ten pairs of digits at most.
def fillDigits : Nat → Bytes → Nat → Nat → Option Bytes
  | 0, _, _, _ => none
  | pairs + 1, dst, next, value =>
      if 100 ≤ value then
        (store dst (next - 1) (digitPair (value % 100))).bind fun filled => fillDigits pairs filled (next - 2) (value / 100)
      else if value < 10 then store dst next [digitChar value]
      else store dst (next - 1) (digitPair value)

def ll2string (svalue : Int) : Option Bytes :=
  let negative := if svalue < 0 then 1 else 0
  let length := digits10 svalue.natAbs + negative
  (fillDigits 10 (List.replicate (length + 1) 0) (length - 1) svalue.natAbs).bind fun filled =>
    (if svalue < 0 then store filled 0 [45] else some filled).map fun signed => signed.take length

def numeral (value : Nat) : Bytes := (Nat.digits 10 value).reverse.map digitChar

theorem digit_char_of (char : UInt8) (digit : isDigit char = true) : digitChar (digitOf char) = char ∧ digitOf char < 10 := by
  rw [isDigit, Bool.and_eq_true, decide_eq_true_eq, decide_eq_true_eq, UInt8.le_iff_toNat_le, UInt8.le_iff_toNat_le] at digit
  have low : 48 ≤ char.toNat := digit.1
  have high : char.toNat ≤ 57 := digit.2
  refine ⟨?_, by rw [digitOf]; omega⟩
  rw [digitChar, digitOf, Nat.add_sub_cancel' low, UInt8.ofNat_toNat]

theorem numeral_snoc (value digit : Nat) (positive : value ≠ 0) (below : digit < 10) :
    numeral (value * 10 + digit) = numeral value ++ [digitChar digit] := by
  have digits : Nat.digits 10 (value * 10 + digit) = digit :: Nat.digits 10 value := by
    rw [Nat.digits_def' (by decide) (by omega)]
    have last : (value * 10 + digit) % 10 = digit := by omega
    have others : (value * 10 + digit) / 10 = value := by omega
    rw [last, others]
  rw [numeral, digits, List.reverse_cons, List.map_append, numeral]
  rfl

theorem numeral_small (digit : Nat) (positive : digit ≠ 0) (below : digit < 10) : numeral digit = [digitChar digit] := by
  rw [numeral, Nat.digits_of_lt 10 digit positive below]
  rfl

theorem read_digits_numeral (v w : Nat) (text : Bytes) (positive : v ≠ 0) (read : readDigits v text = some w) :
    numeral w = numeral v ++ text ∧ w ≠ 0 := by
  induction text generalizing v with
  | nil =>
      cases read
      exact ⟨by rw [List.append_nil], positive⟩
  | cons char rest ih =>
      rw [readDigits] at read
      split at read
      · rename_i digit
        obtain ⟨same, below⟩ := digit_char_of char digit
        split at read
        · cases read
        · split at read
          · cases read
          · obtain ⟨later, nonzero⟩ := ih (v * 10 + digitOf char) (by omega) read
            refine ⟨?_, nonzero⟩
            rw [later, numeral_snoc v _ positive below, same, List.append_assoc, List.singleton_append]
      · cases read

theorem read_unsigned_numeral (w : Nat) (text : Bytes) (read : readUnsigned text = some w) : numeral w = text ∧ w ≠ 0 := by
  cases text with
  | nil => cases read
  | cons first rest =>
      rw [readUnsigned] at read
      split at read
      · rename_i leading
        rw [Bool.and_eq_true, decide_eq_true_eq, decide_eq_true_eq, UInt8.le_iff_toNat_le, UInt8.le_iff_toNat_le] at leading
        have low : 49 ≤ first.toNat := leading.1
        have high : first.toNat ≤ 57 := leading.2
        have digit : isDigit first = true := by
          rw [isDigit, Bool.and_eq_true, decide_eq_true_eq, decide_eq_true_eq, UInt8.le_iff_toNat_le, UInt8.le_iff_toNat_le]
          exact ⟨Nat.le_of_succ_le low, high⟩
        obtain ⟨same, below⟩ := digit_char_of first digit
        have positive : digitOf first ≠ 0 := by
          rw [digitOf]
          omega
        obtain ⟨later, nonzero⟩ := read_digits_numeral _ w rest positive read
        rw [later, numeral_small _ positive below, same]
        exact ⟨rfl, nonzero⟩
      · cases read

theorem log_between (v digits : Nat) (least : 10 ^ digits ≤ v) (most : v < 10 ^ (digits + 1)) :
    digits + 1 = Nat.log 10 v + 1 := by
  rw [Nat.log_eq_of_pow_le_of_lt_pow least most]

-- One case for each range of the comparisons.
theorem digits10_short (v : Nat) (positive : v ≠ 0) (short : v < 1000000000000) : digits10 v = Nat.log 10 v + 1 := by
  rw [digits10]
  split_ifs
  · exact log_between v 0 (by omega) (by omega)
  · exact log_between v 1 (by omega) (by omega)
  · exact log_between v 2 (by omega) (by omega)
  · exact log_between v 3 (by omega) (by omega)
  · exact log_between v 5 (by omega) (by omega)
  · exact log_between v 4 (by omega) (by omega)
  · exact log_between v 7 (by omega) (by omega)
  · exact log_between v 6 (by omega) (by omega)
  · exact log_between v 9 (by omega) (by omega)
  · exact log_between v 8 (by omega) (by omega)
  · exact log_between v 11 (by omega) (by omega)
  · exact log_between v 10 (by omega) (by omega)

theorem digits10_long (v : Nat) (long : 1000000000000 ≤ v) : digits10 v = 12 + digits10 (v / 1000000000000) := by
  rw [digits10, if_neg (by omega), if_neg (by omega), if_neg (by omega), if_neg (by omega)]

-- Beyond the ranges twelve digits are split off.
theorem digits10_log (v : Nat) (positive : v ≠ 0) : digits10 v = Nat.log 10 v + 1 := by
  induction v using Nat.strongRecOn with
  | ind v ih =>
      rcases Nat.lt_or_ge v 1000000000000 with short | long
      · exact digits10_short v positive short
      · have first := ih (v / 1000000000000) (by omega) (by omega)
        have split := Nat.log_div_base_pow 10 v 12
        have least : 12 ≤ Nat.log 10 v := Nat.le_log_of_pow_le (by decide) long
        rw [digits10_long v long, first]
        norm_num at split
        omega

theorem digits10_numeral (v : Nat) (positive : v ≠ 0) : (numeral v).length = digits10 v := by
  rw [numeral, List.length_map, List.length_reverse, Nat.length_digits 10 v (by decide) positive, digits10_log v positive]

theorem numeral_pair (value : Nat) (large : 100 ≤ value) :
    numeral value = numeral (value / 100) ++ digitPair (value % 100) := by
  have tens := numeral_snoc (value / 100) (value % 100 / 10) (by omega) (by omega)
  have ones := numeral_snoc (value / 10) (value % 10) (by omega) (by omega)
  have upper : value / 100 * 10 + value % 100 / 10 = value / 10 := by omega
  have whole : value / 10 * 10 + value % 10 = value := by omega
  have last : value % 100 % 10 = value % 10 := by omega
  rw [upper] at tens
  rw [whole, tens, List.append_assoc] at ones
  rw [ones, digitPair, last]
  rfl

theorem numeral_two (value : Nat) (least : 10 ≤ value) (most : value < 100) : numeral value = digitPair value := by
  have ones := numeral_snoc (value / 10) (value % 10) (by omega) (by omega)
  have whole : value / 10 * 10 + value % 10 = value := by omega
  rw [whole, numeral_small (value / 10) (by omega) (by omega)] at ones
  exact ones

-- The gap that the digits leave free is as long as they are.
theorem fill_numeral (pairs value : Nat) (front gap back : Bytes) (positive : value ≠ 0) (fits : value < 100 ^ pairs)
    (room : gap.length = (numeral value).length) :
    fillDigits pairs (front ++ gap ++ back) (front.length + gap.length - 1) value =
      some (front ++ numeral value ++ back) := by
  induction pairs generalizing value gap back with
  | zero =>
      rw [Nat.pow_zero] at fits
      omega
  | succ pairs ih =>
      rw [fillDigits]
      split
      · rename_i large
        have pair := numeral_pair value large
        have two : (digitPair (value % 100)).length = 2 := rfl
        rw [pair, List.length_append, two] at room
        have upper : (gap.take (numeral (value / 100)).length).length = (numeral (value / 100)).length := by
          rw [List.length_take]
          omega
        have lower : (digitPair (value % 100)).length = (gap.drop (numeral (value / 100)).length).length := by
          rw [List.length_drop, two]
          omega
        have stored := store_span (front ++ gap.take (numeral (value / 100)).length)
          (gap.drop (numeral (value / 100)).length) back (digitPair (value % 100)) lower
        rw [List.append_assoc front, List.take_append_drop] at stored
        have place : (front ++ gap.take (numeral (value / 100)).length).length = front.length + gap.length - 1 - 1 := by
          rw [List.length_append, upper]
          omega
        rw [place] at stored
        have rest := ih (value / 100) (gap.take (numeral (value / 100)).length) (digitPair (value % 100) ++ back)
          (by omega) (by rw [Nat.pow_succ] at fits; omega) upper
        have next : front.length + (gap.take (numeral (value / 100)).length).length - 1 =
            front.length + gap.length - 1 - 2 := by
          rw [upper]
          omega
        rw [next, ← List.append_assoc] at rest
        rw [stored, Option.bind_some, rest, pair]
        simp only [List.append_assoc]
      · split
        · rename_i single
          rw [numeral_small value positive single] at room ⊢
          have here : front.length + gap.length - 1 = front.length := by
            rw [room, List.length_singleton]
            omega
          rw [here]
          exact store_span front gap back _ room.symm
        · rename_i small several
          rw [numeral_two value (by omega) (by omega)] at room ⊢
          have here : front.length + gap.length - 1 - 1 = front.length := by
            rw [room]
            exact Nat.add_sub_cancel front.length 1
          rw [here]
          exact store_span front gap back _ room.symm

theorem ll2string_positive (value : Nat) (positive : value ≠ 0) (fits : value < 100 ^ 10) :
    ll2string value = some (numeral value) := by
  have length := digits10_numeral value positive
  have filled := fill_numeral 10 value [] (List.replicate (digits10 value) 0) [0] positive fits
    (by rw [List.length_replicate, length])
  rw [List.length_replicate, List.nil_append, List.length_nil, Nat.zero_add, ← List.replicate_succ'] at filled
  have sign : ¬(value : Int) < 0 := by omega
  simp only [ll2string, sign, if_false, Int.natAbs_natCast, Nat.add_zero, filled, Option.bind_some, Option.map_some,
    List.nil_append]
  rw [← length, List.take_left]

theorem ll2string_negative (value : Nat) (positive : value ≠ 0) (fits : value < 100 ^ 10) :
    ll2string (-value) = some (45 :: numeral value) := by
  have length := digits10_numeral value positive
  have filled := fill_numeral 10 value [0] (List.replicate (digits10 value) 0) [0] positive fits
    (by rw [List.length_replicate, length])
  have buffer : [0] ++ List.replicate (digits10 value) 0 ++ [0] = List.replicate (digits10 value + 1 + 1) (0 : UInt8) := by
    rw [List.append_assoc, ← List.replicate_succ']
    rfl
  have next : [(0 : UInt8)].length + digits10 value - 1 = digits10 value + 1 - 1 := by
    rw [List.length_singleton, Nat.add_comm]
  rw [buffer, List.length_replicate, next] at filled
  have sign : -(value : Int) < 0 := by omega
  have stored : store ([0] ++ numeral value ++ [0]) 0 [45] = some (45 :: (numeral value ++ [0])) :=
    store_span [] [0] (numeral value ++ [0]) [45] rfl
  simp only [ll2string, sign, if_true, Int.natAbs_neg, Int.natAbs_natCast, filled, Option.bind_some]
  rw [stored, Option.map_some, List.take_succ_cons, ← length, List.take_left]

theorem ll2string_zero : ll2string 0 = some [48] := by
  have length : digits10 0 = 1 := by rw [digits10, if_pos (by decide)]
  rw [ll2string, Int.natAbs_zero, length]
  rfl

theorem string2ll_text (text : Bytes) (value : Int) (read : string2ll text = some value) :
    ll2string value = some text := by
  cases text with
  | nil => cases read
  | cons first rest =>
      rw [string2ll] at read
      split at read
      · rename_i zero
        cases read
        rw [zero.1, zero.2]
        exact ll2string_zero
      · split at read
        · rename_i sign
          obtain ⟨v, digits, bounded⟩ := Option.bind_eq_some_iff.mp read
          obtain ⟨same, positive⟩ := read_unsigned_numeral v rest digits
          split at bounded
          · cases bounded
          · rename_i small
            cases bounded
            rw [ll2string_negative v positive (by rw [llongMax] at small; omega), same, sign]
        · obtain ⟨v, digits, bounded⟩ := Option.bind_eq_some_iff.mp read
          obtain ⟨same, positive⟩ := read_unsigned_numeral v (first :: rest) digits
          split at bounded
          · cases bounded
          · rename_i small
            cases bounded
            rw [ll2string_positive v positive (by rw [llongMax] at small; omega), same]

theorem filled_fits (pairs value next : Nat) (dst text : Bytes) (filled : fillDigits pairs dst next value = some text) :
    value < 100 ^ pairs := by
  induction pairs generalizing dst next value with
  | zero => cases filled
  | succ pairs ih =>
      rw [fillDigits] at filled
      rw [Nat.pow_succ]
      split at filled
      · obtain ⟨stored, _, rest⟩ := Option.bind_eq_some_iff.mp filled
        have fits := ih _ _ stored rest
        omega
      · have positive : 0 < 100 ^ pairs := Nat.pow_pos (by decide)
        omega

theorem digits10_short_le (v : Nat) (fits : v < 100 ^ 10) : digits10 v ≤ 20 := by
  rcases Nat.eq_zero_or_pos v with rfl | positive
  · rw [digits10, if_pos (by decide)]
    decide
  · have below : Nat.log 10 v < 20 := Nat.log_lt_of_lt_pow positive.ne' (by norm_num at fits ⊢; exact fits)
    rw [digits10_log v positive.ne']
    exact below

-- Whatever the number, its text has no more than a sign and twenty digits.
theorem ll2string_short (value : Int) (text : Bytes) (written : ll2string value = some text) : text.length ≤ 21 := by
  obtain ⟨filled, digits, sign⟩ := Option.bind_eq_some_iff.mp written
  obtain ⟨signed, _, rfl⟩ := Option.map_eq_some_iff.mp sign
  have most := digits10_short_le value.natAbs (filled_fits _ _ _ _ filled digits)
  rw [List.length_take]
  split <;> omega

end AppFit.Redis
