import AppFit.Lib.Scan

/- Texts as bytes: ASCII literals, UTF-8, and the repair of invalid UTF-8 by the
   replacement character. Weights of bytes measure what an escape sequence is worth. -/
set_option autoImplicit false

namespace AppFit.Encoding

open AppFit.Scan

abbrev Bytes := List UInt8

def byte (char : Char) : UInt8 := UInt8.ofNat char.toNat

def ascii (text : String) : Bytes := text.toList.map byte

def utf8 (text : List Char) : Bytes := text.flatMap String.utf8EncodeChar

def backslash : UInt8 := byte '\\'
def quote : UInt8 := byte '"'
def ampersand : UInt8 := byte '&'
def newline : UInt8 := 10

def isOctal (digit : UInt8) : Bool := 48 ≤ digit && digit ≤ 55
def isHex (digit : UInt8) : Bool :=
  48 ≤ digit && digit ≤ 57 || 97 ≤ digit && digit ≤ 102 || 65 ≤ digit && digit ≤ 70

def isAlnum (digit : UInt8) : Bool :=
  48 ≤ digit && digit ≤ 57 || 97 ≤ digit && digit ≤ 122 || 65 ≤ digit && digit ≤ 90

def digitValue (digit : UInt8) : Nat :=
  if digit ≤ 57 then digit.toNat - 48 else if digit ≤ 70 then digit.toNat - 55 else digit.toNat - 87

def numeral (base : Nat) (digits : Bytes) : Nat := digits.foldl (fun value digit => base * value + digitValue digit) 0

def decodeChar (input : Bytes) : Option Char := input.toByteArray.utf8DecodeChar? 0

def replacementCharacter : Bytes := [0xEF, 0xBF, 0xBD]

-- What a decoder that replaces each byte outside a valid sequence makes of a text.
def toValid : Scanner UInt8 where
  next head tail :=
    match decodeChar (head :: tail) with
    | some char => (head :: tail.take (char.utf8Size - 1), tail.drop (char.utf8Size - 1))
    | none => (replacementCharacter, tail)
  shrinks head tail := by
    cases decodeChar (head :: tail) with
    | none => exact Nat.le_refl _
    | some char =>
        simp only [List.length_drop]
        omega

theorem decode_char_utf8 (char : Char) (rest : Bytes) :
    decodeChar (String.utf8EncodeChar char ++ rest) = some char := by
  rw [decodeChar, List.toByteArray_append]
  exact ByteArray.utf8DecodeChar?_utf8EncodeChar_append

theorem to_valid_utf8 (text : List Char) : toValid.run (utf8 text) = utf8 text := by
  induction text with
  | nil => rfl
  | cons char rest ih =>
      have decoded := decode_char_utf8 char (utf8 rest)
      have size := String.length_utf8EncodeChar char
      have split : utf8 (char :: rest) = String.utf8EncodeChar char ++ utf8 rest := rfl
      rw [split]
      cases encoded : String.utf8EncodeChar char with
      | nil =>
          rw [encoded] at size
          exact absurd size (Nat.ne_of_lt char.utf8Size_pos)
      | cons head tail =>
          rw [encoded] at decoded size
          simp only [List.length_cons] at size
          rw [List.cons_append, run_cons]
          simp only [toValid, List.cons_append] at decoded ⊢
          rw [decoded]
          simp only [← size, Nat.add_sub_cancel, List.take_left, List.drop_left]
          exact congrArg (head :: tail ++ ·) ih

-- A backslash is worth most, what an escape sequence is made of is worth
-- something, and bytes outside ASCII are worth nothing.
structure Weights where
  weigh : UInt8 → Nat
  top : ∀ item, weigh item ≤ weigh backslash
  alnum : ∀ item, isAlnum item = true → 0 < weigh item
  high : ∀ item, 0x80 ≤ item → weigh item = 0

theorem weights_backslash (weights : Weights) : 0 < weights.weigh backslash :=
  Nat.lt_of_lt_of_le (weights.alnum 48 (by decide)) (weights.top 48)

theorem weight_drop_le (weights : Weights) (count : Nat) (input : Bytes) :
    weight weights.weigh (input.drop count) ≤ weight weights.weigh input := by
  have whole := weight_append weights.weigh (input.take count) (input.drop count)
  rw [List.take_append_drop] at whole
  omega

theorem replacement_weightless (weights : Weights) : weight weights.weigh replacementCharacter = 0 := by
  simp only [replacementCharacter, weight_cons, weight_nil, weights.high 0xEF (by decide),
    weights.high 0xBF (by decide), weights.high 0xBD (by decide)]

theorem to_valid_weight_le (weights : Weights) (input : Bytes) :
    weight weights.weigh (toValid.run input) ≤ weight weights.weigh input := by
  apply run_weight_le
  intro head tail
  simp only [toValid]
  cases decodeChar (head :: tail) with
  | none =>
      simp only [replacement_weightless, weight_cons]
      omega
  | some char =>
      have whole := weight_append weights.weigh (tail.take (char.utf8Size - 1)) (tail.drop (char.utf8Size - 1))
      rw [List.take_append_drop] at whole
      simp only [weight_cons]
      omega

theorem to_valid_all (good : UInt8 → Prop) (high : ∀ item, 0x80 ≤ item → good item) (input : Bytes)
    (all : ∀ item ∈ input, good item) : ∀ item ∈ toValid.run input, good item := by
  refine run_all toValid good ?_ input all
  intro head tail every
  simp only [toValid]
  cases decodeChar (head :: tail) with
  | none =>
      refine ⟨?_, fun item member => every item (List.mem_cons_of_mem _ member)⟩
      intro item member
      apply high
      simp only [replacementCharacter, List.mem_cons, List.not_mem_nil, or_false] at member
      rcases member with rfl | rfl | rfl <;> decide
  | some char =>
      refine ⟨?_, fun item member => every item (List.mem_cons_of_mem _ (List.mem_of_mem_drop member))⟩
      intro item member
      rcases List.mem_cons.mp member with first | later
      · exact every item (first ▸ List.mem_cons_self)
      · exact every item (List.mem_cons_of_mem _ (List.mem_of_mem_take later))

theorem high_or (item mask : UInt8) (marked : 0x80 ≤ mask) : 0x80 ≤ item ||| mask := by
  rw [UInt8.le_iff_toNat_le] at marked ⊢
  rw [UInt8.toNat_or]
  exact Nat.le_trans marked Nat.right_le_or

theorem utf8_char_weight (weights : Weights) (char : Char) :
    weight weights.weigh (String.utf8EncodeChar char) ≤ weights.weigh backslash := by
  have zero (item mask : UInt8) (marked : 0x80 ≤ mask) : weights.weigh (item ||| mask) = 0 :=
    weights.high _ (high_or item mask marked)
  have small := char.utf8Size_le_four
  have positive := char.utf8Size_pos
  rcases (by omega : char.utf8Size = 1 ∨ char.utf8Size = 2 ∨ char.utf8Size = 3 ∨ char.utf8Size = 4) with
    size | size | size | size
  · rw [String.utf8EncodeChar_eq_singleton size, weight_cons, weight_nil]
    exact weights.top _
  · rw [String.utf8EncodeChar_eq_cons_cons size]
    simp only [weight_cons, weight_nil, zero _ 0xc0 (by decide), zero _ 0x80 (by decide)]
    exact Nat.zero_le _
  · rw [String.utf8EncodeChar_eq_cons_cons_cons size]
    simp only [weight_cons, weight_nil, zero _ 0xe0 (by decide), zero _ 0x80 (by decide)]
    exact Nat.zero_le _
  · rw [String.utf8EncodeChar_eq_cons_cons_cons_cons size]
    simp only [weight_cons, weight_nil, zero _ 0xf0 (by decide), zero _ 0x80 (by decide)]
    exact Nat.zero_le _

end AppFit.Encoding
