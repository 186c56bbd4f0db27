import AppFit.Lib.Bytes

/- str of a Python 2 dict of byte strings, and eval on the texts that str writes:
   dict displays of string literals. Any other text is outside this library and
   evaluates to none here. -/
set_option autoImplicit false

namespace AppFit.PyLiteral

open AppFit.Encoding

def apostrophe : UInt8 := 39

def hexDigit (value : Nat) : UInt8 := if value < 10 then UInt8.ofNat (48 + value) else UInt8.ofNat (87 + value)

def reprByte (delimiter item : UInt8) : Bytes :=
  if item = delimiter ∨ item = backslash then [backslash, item]
  else if item = 9 then [backslash, byte 't']
  else if item = 10 then [backslash, byte 'n']
  else if item = 13 then [backslash, byte 'r']
  else if item < 32 ∨ 127 ≤ item then
    [backslash, byte 'x', hexDigit (item.toNat / 16), hexDigit (item.toNat % 16)]
  else [item]

-- Double quotes only for a text that has an apostrophe and no double quote.
def delimiterOf (text : Bytes) : UInt8 := if text.contains apostrophe && !text.contains quote then quote else apostrophe

def reprText (text : Bytes) : Bytes :=
  delimiterOf text :: (text.flatMap (reprByte (delimiterOf text)) ++ [delimiterOf text])

abbrev Pair := Bytes × Bytes

def reprPair (pair : Pair) : Bytes := reprText pair.1 ++ ascii ": " ++ reprText pair.2

def strPairs : List Pair → Bytes
  | [] => [byte '}']
  | [pair] => reprPair pair ++ [byte '}']
  | pair :: rest => reprPair pair ++ ascii ", " ++ strPairs rest

def strDict (dict : List Pair) : Bytes := byte '{' :: strPairs dict

def escapeValue : Bytes → Option (UInt8 × Bytes)
  | [] => none
  | letter :: rest =>
      if letter = backslash ∨ letter = apostrophe ∨ letter = quote then some (letter, rest)
      else if letter = byte 't' then some (9, rest)
      else if letter = byte 'n' then some (10, rest)
      else if letter = byte 'r' then some (13, rest)
      else if letter = byte 'x' then
        match rest with
        | high :: low :: after =>
            if isHex high && isHex low then some (UInt8.ofNat (numeral 16 [high, low]), after) else none
        | _ => none
      else none

def literal (delimiter : UInt8) : Nat → Bytes → Option (Bytes × Bytes)
  | 0, _ => none
  | _ + 1, [] => none
  | fuel + 1, head :: rest =>
      if head = delimiter then some ([], rest)
      else if head = backslash then
        (escapeValue rest).bind fun read => (literal delimiter fuel read.2).map fun more => (read.1 :: more.1, more.2)
      else (literal delimiter fuel rest).map fun more => (head :: more.1, more.2)

def evalText : Bytes → Option (Bytes × Bytes)
  | [] => none
  | delimiter :: rest =>
      if delimiter = apostrophe ∨ delimiter = quote then literal delimiter (rest.length + 1) rest else none

def expect (wanted input : Bytes) : Option Bytes :=
  if wanted.isPrefixOf input then some (input.drop wanted.length) else none

def evalPairs : Nat → Bytes → Option (List Pair)
  | 0, _ => none
  | fuel + 1, input => do
      let key ← evalText input
      let afterKey ← expect (ascii ": ") key.2
      let value ← evalText afterKey
      if value.2 = [byte '}'] then some [(key.1, value.1)]
      else
        let rest ← expect (ascii ", ") value.2
        (evalPairs fuel rest).map ((key.1, value.1) :: ·)

def evalDict : Bytes → Option (List Pair)
  | [] => none
  | opening :: rest =>
      if opening = byte '{' then
        if rest = [byte '}'] then some [] else evalPairs rest.length rest
      else none

theorem hex_digit_read : ∀ value < 16, isHex (hexDigit value) = true ∧ digitValue (hexDigit value) = value := by
  decide

theorem escaped_read (delimiter item : UInt8) (quoting : delimiter = apostrophe ∨ delimiter = quote) (rest : Bytes) :
    (∃ letters, reprByte delimiter item = backslash :: letters ∧ escapeValue (letters ++ rest) = some (item, rest)) ∨
      reprByte delimiter item = [item] ∧ item ≠ delimiter ∧ item ≠ backslash := by
  rw [reprByte]
  split_ifs with itself tab lineFeed carriage other
  · refine .inl ⟨[item], rfl, ?_⟩
    have known : item = backslash ∨ item = apostrophe ∨ item = quote := by
      rcases itself with rfl | same
      · exact .inr quoting
      · exact .inl same
    exact if_pos known
  · exact .inl ⟨_, rfl, by rw [tab]; rfl⟩
  · exact .inl ⟨_, rfl, by rw [lineFeed]; rfl⟩
  · exact .inl ⟨_, rfl, by rw [carriage]; rfl⟩
  · refine .inl ⟨_, rfl, ?_⟩
    have bound := item.toNat_lt
    obtain ⟨highHex, highValue⟩ := hex_digit_read (item.toNat / 16) (by omega)
    obtain ⟨lowHex, lowValue⟩ := hex_digit_read (item.toNat % 16) (by omega)
    have whole : numeral 16 [hexDigit (item.toNat / 16), hexDigit (item.toNat % 16)] = item.toNat := by
      simp only [numeral, List.foldl_cons, List.foldl_nil, highValue, lowValue]
      omega
    simp only [List.cons_append, List.nil_append, escapeValue, highHex, lowHex, Bool.and_self, if_true, whole,
      UInt8.ofNat_toNat]
    rfl
  · exact .inr ⟨rfl, fun same => itself (.inl same), fun same => itself (.inr same)⟩

theorem literal_repr (delimiter : UInt8) (quoting : delimiter = apostrophe ∨ delimiter = quote) (text rest : Bytes)
    (fuel : Nat) (enough : text.length < fuel) :
    literal delimiter fuel (text.flatMap (reprByte delimiter) ++ delimiter :: rest) = some (text, rest) := by
  have distinct : backslash ≠ delimiter := by
    rcases quoting with rfl | rfl <;> decide
  induction text generalizing fuel with
  | nil =>
      cases fuel with
      | zero => cases enough
      | succ fuel => exact if_pos rfl
  | cons item tail ih =>
      cases fuel with
      | zero => cases enough
      | succ fuel =>
          have later := ih fuel (Nat.lt_of_succ_lt_succ enough)
          rw [List.flatMap_cons, List.append_assoc]
          rcases escaped_read delimiter item quoting
              (tail.flatMap (reprByte delimiter) ++ delimiter :: rest) with
            ⟨letters, written, read⟩ | ⟨written, notDelimiter, notEscape⟩
          · rw [written, List.cons_append, literal, if_neg distinct, if_pos rfl, read, Option.bind_some]
            simp only [later, Option.map_some]
          · rw [written, List.singleton_append, literal, if_neg notDelimiter, if_neg notEscape, later]
            rfl

theorem repr_length (delimiter : UInt8) (text : Bytes) : text.length ≤ (text.flatMap (reprByte delimiter)).length := by
  induction text with
  | nil => exact Nat.le_refl _
  | cons item tail ih =>
      have written : 0 < (reprByte delimiter item).length := by
        rw [reprByte]
        split_ifs <;> exact Nat.succ_pos _
      rw [List.flatMap_cons, List.length_append, List.length_cons]
      omega

theorem eval_repr_text (text rest : Bytes) : evalText (reprText text ++ rest) = some (text, rest) := by
  have quoting : delimiterOf text = apostrophe ∨ delimiterOf text = quote := by
    rw [delimiterOf]
    split
    · exact .inr rfl
    · exact .inl rfl
  have long := repr_length (delimiterOf text) text
  rw [reprText, List.cons_append, evalText, if_pos quoting, List.append_assoc, List.singleton_append]
  apply literal_repr (delimiterOf text) quoting
  rw [List.length_append]
  omega

theorem expect_append (wanted rest : Bytes) : expect wanted (wanted ++ rest) = some rest := by
  have found : wanted.isPrefixOf (wanted ++ rest) = true := List.isPrefixOf_iff_prefix.mpr (List.prefix_append _ _)
  rw [expect, if_pos found, List.drop_left]

theorem eval_pair (fuel : Nat) (pair : Pair) (rest : Bytes) :
    evalPairs (fuel + 1) (reprPair pair ++ rest) =
      if rest = [byte '}'] then some [pair]
      else (expect (ascii ", ") rest).bind fun after => (evalPairs fuel after).map (pair :: ·) := by
  simp only [evalPairs, reprPair, List.append_assoc, eval_repr_text, expect_append, Option.bind_eq_bind,
    Option.bind_some]

theorem str_pairs_cons (pair next : Pair) (rest : List Pair) :
    strPairs (pair :: next :: rest) = reprPair pair ++ (ascii ", " ++ strPairs (next :: rest)) := by
  rw [strPairs, List.append_assoc]
  exact List.cons_ne_nil next rest

theorem eval_str_pairs (pair : Pair) (rest : List Pair) (fuel : Nat) (enough : rest.length < fuel) :
    evalPairs fuel (strPairs (pair :: rest)) = some (pair :: rest) := by
  induction rest generalizing pair fuel with
  | nil =>
      cases fuel with
      | zero => cases enough
      | succ fuel => exact (eval_pair fuel pair [byte '}']).trans (if_pos rfl)
  | cons next rest ih =>
      cases fuel with
      | zero => cases enough
      | succ fuel =>
          have more : ascii ", " ++ strPairs (next :: rest) ≠ [byte '}'] := by
            intro same
            cases same
          rw [str_pairs_cons, eval_pair, if_neg more, expect_append, Option.bind_some,
            ih next fuel (Nat.lt_of_succ_lt_succ enough)]
          rfl

theorem str_pairs_length (pair : Pair) (rest : List Pair) : rest.length + 1 < (strPairs (pair :: rest)).length := by
  have written (pair : Pair) : 2 ≤ (reprPair pair).length := by
    simp only [reprPair, reprText, List.length_append, List.length_cons]
    omega
  induction rest generalizing pair with
  | nil =>
      have first := written pair
      rw [strPairs, List.length_append]
      exact Nat.lt_of_lt_of_le (by decide : 1 < 2) (Nat.le_trans first (Nat.le_add_right _ _))
  | cons next rest ih =>
      have first := written pair
      have later := ih next
      rw [str_pairs_cons, List.length_append, List.length_append, List.length_cons]
      omega

theorem eval_str_dict (dict : List Pair) : evalDict (strDict dict) = some dict := by
  cases dict with
  | nil => rfl
  | cons pair rest =>
      have long := str_pairs_length pair rest
      have more : strPairs (pair :: rest) ≠ [byte '}'] := by
        intro same
        rw [same, List.length_singleton] at long
        omega
      rw [strDict, evalDict, if_pos rfl, if_neg more]
      exact eval_str_pairs pair rest _ (by omega)

end AppFit.PyLiteral
