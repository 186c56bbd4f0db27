import Mathlib.Algebra.Field.Rat
import Mathlib.Data.List.TakeWhile
import AppFit.Lib.JsonText

/- Numbers of JSON texts: the literal of a natural number, the exact value of a
   literal, and parsers that round it to the numbers of a machine. The standard's
   own parser refuses the NaN and infinities that Python reads. -/
set_option autoImplicit false

namespace AppFit.JsonText

open AppFit.Shell

def exponentValue : Text → Int
  | [] => 0
  | _ :: rest =>
      if rest.head? = some '-' then -(Nat.ofDigitChars 10 rest.tail 0 : Int)
      else if rest.head? = some '+' then Nat.ofDigitChars 10 rest.tail 0
      else Nat.ofDigitChars 10 rest 0

def unsignedValue (text : Text) : ℚ :=
  let whole := text.takeWhile Char.isDigit
  let rest := text.dropWhile Char.isDigit
  let fraction := if rest.head? = some '.' then rest.tail.takeWhile Char.isDigit else []
  let exponent := if rest.head? = some '.' then rest.tail.dropWhile Char.isDigit else rest
  Nat.ofDigitChars 10 (whole ++ fraction) 0 * (10 : ℚ) ^ (exponentValue exponent - fraction.length)

def readNumber (text : Text) : Option ℚ :=
  if isNumber text then
    some (if text.head? = some '-' then -unsignedValue text.tail else unsignedValue text)
  else none

theorem digit_literal (digit : Char) (isDigit : digit.isDigit = true) :
    literalCharacter digit = true ∧ digit ≠ '-' := by
  refine ⟨by simp [literalCharacter, Char.isAlphanum, isDigit], ?_⟩
  intro same
  subst same
  exact absurd isDigit (by decide)

theorem to_digits_digit (number : Nat) (digit : Char) (member : digit ∈ Nat.toDigits 10 number) :
    digit.isDigit = true :=
  Nat.isDigit_of_mem_toDigits (by decide) (by decide) member

theorem to_digits_head (number : Nat) (positive : 0 < number) : (Nat.toDigits 10 number).head? ≠ some '0' := by
  induction number using Nat.strongRecOn with
  | ind number ih =>
      by_cases small : number < 10
      · have all : ∀ number < 10, 0 < number → (Nat.toDigits 10 number).head? ≠ some '0' := by decide
        exact all number small positive
      · have earlier := ih (number / 10) (by omega) (by omega)
        rw [Nat.toDigits_of_base_le (by decide) (Nat.not_lt.mp small), List.head?_append_of_ne_nil _ Nat.toDigits_ne_nil]
        exact earlier

theorem digits_taken (digits : Text) (all : ∀ digit ∈ digits, digit.isDigit = true) :
    digits.takeWhile Char.isDigit = digits ∧ digits.dropWhile Char.isDigit = [] :=
  ⟨List.takeWhile_eq_self_iff.mpr all, List.dropWhile_eq_nil_iff.mpr all⟩

theorem to_digits_unsigned (number : Nat) : (Nat.toDigits 10 number).head? ≠ some '-' := by
  intro same
  exact (digit_literal '-' (to_digits_digit number '-' (List.mem_of_head? same))).2 rfl

-- No leading zero, except for the number zero itself.
theorem natural_number (number : Nat) : isNumber (Nat.toDigits 10 number) = true := by
  have taken := digits_taken (Nat.toDigits 10 number) (to_digits_digit number)
  have start : Nat.toDigits 10 number = ['0'] ∨ (Nat.toDigits 10 number).head? ≠ some '0' := by
    rcases Nat.eq_zero_or_pos number with zero | positive
    · exact .inl (by rw [zero]; rfl)
    · exact .inr (to_digits_head number positive)
  have nonempty : (Nat.toDigits 10 number).isEmpty = false := by simp
  simp only [isNumber, to_digits_unsigned number, if_false, taken.1, taken.2, isFraction, Bool.and_true, nonempty,
    Bool.or_eq_true, decide_eq_true_eq, Bool.not_false, Bool.true_and]
  exact start

theorem natural_valid (number : Nat) : isLiteral (Nat.toDigits 10 number) = true := by
  rw [isLiteral, natural_number, Bool.or_true, Bool.and_true, List.all_eq_true]
  exact fun digit member => (digit_literal digit (to_digits_digit number digit member)).1

def natural (number : Nat) : Literal := ⟨Nat.toDigits 10 number, natural_valid number⟩

theorem read_natural (number : Nat) : readNumber (natural number).text = some (number : ℚ) := by
  have taken := digits_taken (Nat.toDigits 10 number) (to_digits_digit number)
  simp [readNumber, natural, natural_number, to_digits_unsigned number, unsignedValue, taken.1, taken.2, exponentValue]

def standardConstants : List Text := ["null".toList, "true".toList, "false".toList]

mutual

def standard : Value → Bool
  | .literal literal => standardConstants.contains literal.text || isNumber literal.text
  | .str _ => true
  | .list items => standardItems items
  | .dict members => standardMembers members
  | .foreign => false

def standardItems : List Value → Bool
  | [] => true
  | item :: items => standard item && standardItems items

def standardMembers : List (Text × Value) → Bool
  | [] => true
  | (_, item) :: members => standard item && standardMembers members

end

theorem standard_items_all (items : List Value) : standardItems items = items.all standard := by
  induction items with
  | nil => rfl
  | cons item items ih => rw [standardItems, List.all_cons, ih]

theorem standard_members_all (members : List (Text × Value)) :
    standardMembers members = members.all fun entry => standard entry.2 := by
  induction members with
  | nil => rfl
  | cons entry members ih => rw [standardMembers, List.all_cons, ih]

def parse (text : Text) : Option Value := (loads text).filter standard

theorem natural_standard (number : Nat) : standard (.literal (natural number)) = true := by
  have isNumber := natural_number number
  rw [standard, natural, isNumber, Bool.or_true]

-- How a parser reads the text of a number. A double holds every whole number up
-- to 2^53; what other texts are rounded to is left open.
structure NumberReader where
  read : Text → Option ℚ
  number : ∀ text value, read text = some value → isNumber text = true
  whole : ∀ count ≤ 2 ^ 53, read (natural count).text = some (count : ℚ)

theorem read_standard (reader : NumberReader) (literal : Literal) (number : ℚ)
    (read : reader.read literal.text = some number) : standard (.literal literal) = true := by
  rw [standard, reader.number literal.text number read, Bool.or_true]

theorem read_number_shape (text : Text) (value : ℚ) (read : readNumber text = some value) : isNumber text = true := by
  rw [readNumber] at read
  split at read
  · assumption
  · cases read

def exactReader : NumberReader := ⟨readNumber, read_number_shape, fun count _ => read_natural count⟩

end AppFit.JsonText
