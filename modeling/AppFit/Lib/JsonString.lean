import AppFit.Lib.Shell

/- String literals of JSON texts as Python's json module writes and reads them. A
   text is a list of Unicode characters; everything outside printable ASCII is
   escaped. -/
set_option autoImplicit false

namespace AppFit.JsonText

open AppFit.Shell

def hexDigits (code : Nat) : Text :=
  [Nat.digitChar (code / 4096 % 16), Nat.digitChar (code / 256 % 16), Nat.digitChar (code / 16 % 16),
    Nat.digitChar (code % 16)]

def unicodeEscaped (code : Nat) : Text := '\\' :: 'u' :: hexDigits code

-- Outside the printable ASCII characters everything is escaped, beyond the basic
-- plane as a surrogate pair.
def escapeChar (character : Char) : Text :=
  if character = '"' then ['\\', '"']
  else if character = '\\' then ['\\', '\\']
  else if character = '\n' then ['\\', 'n']
  else if character = '\r' then ['\\', 'r']
  else if character = '\t' then ['\\', 't']
  else if character = Char.ofNat 12 then ['\\', 'f']
  else if character = Char.ofNat 8 then ['\\', 'b']
  else if 0x20 ≤ character.toNat ∧ character.toNat ≤ 0x7e then [character]
  else if character.toNat < 0x10000 then unicodeEscaped character.toNat
  else
    unicodeEscaped (0xd800 + (character.toNat - 0x10000) / 0x400) ++
      unicodeEscaped (0xdc00 + (character.toNat - 0x10000) % 0x400)

def escapeText (text : Text) : Text := text.flatMap escapeChar

def quoted (text : Text) : Text := '"' :: (escapeText text ++ ['"'])

-- The characters up to the closing quote, and what follows it; the flag says that
-- the character before was a backslash.
def stringBody : Bool → Text → Option (Text × Text)
  | _, [] => none
  | true, head :: tail => (stringBody false tail).map fun body => (head :: body.1, body.2)
  | false, head :: tail =>
      if head = '"' then some ([], tail)
      else (stringBody (head = '\\') tail).map fun body => (head :: body.1, body.2)

def hexValue (digit : Char) : Option Nat :=
  if '0' ≤ digit ∧ digit ≤ '9' then some (digit.toNat - '0'.toNat)
  else if 'a' ≤ digit ∧ digit ≤ 'f' then some (digit.toNat - 'a'.toNat + 10)
  else if 'A' ≤ digit ∧ digit ≤ 'F' then some (digit.toNat - 'A'.toNat + 10)
  else none

def readHex : Text → Option (Nat × Text)
  | first :: second :: third :: fourth :: rest =>
      match hexValue first, hexValue second, hexValue third, hexValue fourth with
      | some a, some b, some c, some d => some (4096 * a + 256 * b + 16 * c + d, rest)
      | _, _, _, _ => none
  | _ => none

def replacementCharacter : Char := Char.ofNat 0xfffd

def lowSurrogate : Text → Option (Nat × Text)
  | backslash :: letter :: rest =>
      if backslash = '\\' ∧ letter = 'u' then
        (readHex rest).bind fun low => if 0xdc00 ≤ low.1 ∧ low.1 ≤ 0xdfff then some low else none
      else none
  | _ => none

-- A surrogate without its partner is no character of a text; no text is dumped
-- with one.
def unicodeCharacter (code : Nat) (rest : Text) : Char × Text :=
  if 0xd800 ≤ code ∧ code ≤ 0xdbff then
    match lowSurrogate rest with
    | some (low, after) => (Char.ofNat (0x10000 + (code - 0xd800) * 0x400 + (low - 0xdc00)), after)
    | none => (replacementCharacter, rest)
  else if 0xdc00 ≤ code ∧ code ≤ 0xdfff then (replacementCharacter, rest)
  else (Char.ofNat code, rest)

def simpleEscape (letter : Char) : Option Char :=
  if letter = '"' ∨ letter = '\\' ∨ letter = '/' then some letter
  else if letter = 'b' then some (Char.ofNat 8)
  else if letter = 'f' then some (Char.ofNat 12)
  else if letter = 'n' then some '\n'
  else if letter = 'r' then some '\r'
  else if letter = 't' then some '\t'
  else none

def unescape : Text → Option (Char × Text)
  | [] => none
  | letter :: rest =>
      if letter = 'u' then (readHex rest).map fun code => unicodeCharacter code.1 code.2
      else (simpleEscape letter).map fun character => (character, rest)

def decodeFor : Nat → Text → Option Text
  | _, [] => some []
  | 0, _ :: _ => none
  | fuel + 1, head :: tail =>
      if head = '\\' then
        (unescape tail).bind fun step => (decodeFor fuel step.2).map (step.1 :: ·)
      else if head.toNat < 0x20 then none
      else (decodeFor fuel tail).map (head :: ·)

def readString (input : Text) : Option (Text × Text) :=
  (stringBody false input).bind fun body => (decodeFor body.1.length body.1).map fun text => (text, body.2)

theorem hex_value_digit (digit : Nat) (small : digit < 16) : hexValue (Nat.digitChar digit) = some digit := by
  have all : ∀ digit < 16, hexValue (Nat.digitChar digit) = some digit := by decide
  exact all digit small

theorem digit_char_plain (digit : Nat) (small : digit < 16) :
    Nat.digitChar digit ≠ '"' ∧ Nat.digitChar digit ≠ '\\' := by
  have all : ∀ digit < 16, Nat.digitChar digit ≠ '"' ∧ Nat.digitChar digit ≠ '\\' := by decide
  exact all digit small

theorem read_hex_digits (code : Nat) (small : code < 0x10000) (rest : Text) :
    readHex (hexDigits code ++ rest) = some (code, rest) := by
  have total : 4096 * (code / 4096 % 16) + 256 * (code / 256 % 16) + 16 * (code / 16 % 16) + code % 16 = code := by
    omega
  simp only [hexDigits, List.cons_append, List.nil_append, readHex, hex_value_digit _ (Nat.mod_lt _ (by decide : 0 < 16)),
    total]

theorem char_code (character : Char) :
    character.toNat < 0xd800 ∨ 0xdfff < character.toNat ∧ character.toNat < 0x110000 := by
  have valid : character.toNat.isValidChar := character.valid
  exact valid

theorem unescape_basic (character : Char) (basic : character.toNat < 0x10000) (rest : Text) :
    unescape ('u' :: (hexDigits character.toNat ++ rest)) = some (character, rest) := by
  have code := char_code character
  have notHigh : ¬ (0xd800 ≤ character.toNat ∧ character.toNat ≤ 0xdbff) := by omega
  have notLow : ¬ (0xdc00 ≤ character.toNat ∧ character.toNat ≤ 0xdfff) := by omega
  simp only [unescape, if_true, read_hex_digits _ basic, Option.map_some, unicodeCharacter, notHigh, notLow, if_false,
    Char.ofNat_toNat]

theorem unescape_surrogates (high low : Nat) (isHigh : 0xd800 ≤ high ∧ high ≤ 0xdbff)
    (isLow : 0xdc00 ≤ low ∧ low ≤ 0xdfff) (rest : Text) :
    unescape ('u' :: (hexDigits high ++ (unicodeEscaped low ++ rest))) =
      some (Char.ofNat (0x10000 + (high - 0xd800) * 0x400 + (low - 0xdc00)), rest) := by
  have smallHigh : high < 0x10000 := by omega
  have smallLow : low < 0x10000 := by omega
  have found : lowSurrogate (unicodeEscaped low ++ rest) = some (low, rest) := by
    simp only [unicodeEscaped, List.cons_append, lowSurrogate, and_self, if_true, read_hex_digits low smallLow,
      Option.bind_some, isLow]
  simp only [unescape, if_true, read_hex_digits high smallHigh, Option.map_some, unicodeCharacter, isHigh, and_self,
    found]

theorem unescape_pair (character : Char) (astral : ¬ character.toNat < 0x10000) (rest : Text) :
    unescape ('u' :: (hexDigits (0xd800 + (character.toNat - 0x10000) / 0x400) ++
      (unicodeEscaped (0xdc00 + (character.toNat - 0x10000) % 0x400) ++ rest))) = some (character, rest) := by
  have code := char_code character
  generalize whole : character.toNat = number at *
  have isHigh : 0xd800 ≤ 0xd800 + (number - 0x10000) / 0x400 ∧ 0xd800 + (number - 0x10000) / 0x400 ≤ 0xdbff := by omega
  have isLow : 0xdc00 ≤ 0xdc00 + (number - 0x10000) % 0x400 ∧ 0xdc00 + (number - 0x10000) % 0x400 ≤ 0xdfff := by omega
  have joined : 0x10000 + (0xd800 + (number - 0x10000) / 0x400 - 0xd800) * 0x400 +
      (0xdc00 + (number - 0x10000) % 0x400 - 0xdc00) = number := by omega
  rw [unescape_surrogates _ _ isHigh isLow, joined, ← whole, Char.ofNat_toNat]

theorem string_body_plain (head : Char) (rest : Text) (noQuote : head ≠ '"') (noBackslash : head ≠ '\\') :
    stringBody false (head :: rest) = (stringBody false rest).map fun body => (head :: body.1, body.2) := by
  rw [stringBody, if_neg noQuote, decide_eq_false noBackslash]

theorem string_body_escape (letter : Char) (rest : Text) :
    stringBody false ('\\' :: letter :: rest) = (stringBody false rest).map fun body => ('\\' :: letter :: body.1, body.2) := by
  rw [stringBody, if_neg (by decide), decide_eq_true rfl, stringBody, Option.map_map]
  rfl

theorem string_body_unicode (code : Nat) (rest : Text) :
    stringBody false (unicodeEscaped code ++ rest) =
      (stringBody false rest).map fun body => (unicodeEscaped code ++ body.1, body.2) := by
  have plain : ∀ number, Nat.digitChar (number % 16) ≠ '"' ∧ Nat.digitChar (number % 16) ≠ '\\' :=
    fun number => digit_char_plain _ (Nat.mod_lt _ (by decide))
  simp only [unicodeEscaped, hexDigits, List.cons_append, List.nil_append, string_body_escape,
    string_body_plain _ _ (plain _).1 (plain _).2, Option.map_map]
  rfl

-- The four shapes of an escaped character.
theorem escape_char_cases (character : Char) :
    (∃ letter, escapeChar character = ['\\', letter] ∧ letter ≠ 'u' ∧ simpleEscape letter = some character) ∨
      (escapeChar character = [character] ∧ character ≠ '"' ∧ character ≠ '\\' ∧ ¬ character.toNat < 0x20) ∨
      (escapeChar character = unicodeEscaped character.toNat ∧ character.toNat < 0x10000) ∨
      (escapeChar character = unicodeEscaped (0xd800 + (character.toNat - 0x10000) / 0x400) ++
          unicodeEscaped (0xdc00 + (character.toNat - 0x10000) % 0x400) ∧ ¬ character.toNat < 0x10000) := by
  by_cases quote : character = '"'
  · exact .inl ⟨'"', by rw [escapeChar, if_pos quote], by decide, by rw [quote]; rfl⟩
  by_cases backslash : character = '\\'
  · exact .inl ⟨'\\', by rw [escapeChar, if_neg quote, if_pos backslash], by decide, by rw [backslash]; rfl⟩
  by_cases lineFeed : character = '\n'
  · subst lineFeed
    exact .inl ⟨'n', rfl, by decide, rfl⟩
  by_cases carriageReturn : character = '\r'
  · subst carriageReturn
    exact .inl ⟨'r', rfl, by decide, rfl⟩
  by_cases tab : character = '\t'
  · subst tab
    exact .inl ⟨'t', rfl, by decide, rfl⟩
  by_cases formFeed : character = Char.ofNat 12
  · subst formFeed
    exact .inl ⟨'f', rfl, by decide, rfl⟩
  by_cases backspace : character = Char.ofNat 8
  · subst backspace
    exact .inl ⟨'b', rfl, by decide, rfl⟩
  rw [escapeChar, if_neg quote, if_neg backslash, if_neg lineFeed, if_neg carriageReturn, if_neg tab, if_neg formFeed,
    if_neg backspace]
  by_cases printable : 0x20 ≤ character.toNat ∧ character.toNat ≤ 0x7e
  · exact .inr (.inl ⟨if_pos printable, quote, backslash, Nat.not_lt.mpr printable.1⟩)
  rw [if_neg printable]
  by_cases basic : character.toNat < 0x10000
  · exact .inr (.inr (.inl ⟨if_pos basic, basic⟩))
  · exact .inr (.inr (.inr ⟨if_neg basic, basic⟩))

theorem string_body_escape_char (character : Char) (rest : Text) :
    stringBody false (escapeChar character ++ rest) =
      (stringBody false rest).map fun body => (escapeChar character ++ body.1, body.2) := by
  rcases escape_char_cases character with
    ⟨letter, shape, _, _⟩ | ⟨shape, quote, backslash, _⟩ | ⟨shape, _⟩ | ⟨shape, _⟩
  · rw [shape]
    exact string_body_escape letter rest
  · rw [shape]
    exact string_body_plain character rest quote backslash
  · rw [shape]
    exact string_body_unicode character.toNat rest
  · rw [shape, List.append_assoc, string_body_unicode, string_body_unicode, Option.map_map]
    simp only [Function.comp_def, List.append_assoc]

theorem string_body_text (text rest : Text) :
    stringBody false (escapeText text ++ '"' :: rest) = some (escapeText text, rest) := by
  induction text with
  | nil => rfl
  | cons head tail ih =>
      rw [escapeText, List.flatMap_cons, List.append_assoc, string_body_escape_char]
      rw [escapeText] at ih
      rw [ih, Option.map_some]

theorem decode_escape (fuel : Nat) (tail : Text) (character : Char) (rest : Text)
    (read : unescape tail = some (character, rest)) :
    decodeFor (fuel + 1) ('\\' :: tail) = (decodeFor fuel rest).map (character :: ·) := by
  rw [decodeFor, if_pos rfl, read, Option.bind_some]

theorem decode_escape_char (fuel : Nat) (character : Char) (rest : Text) :
    decodeFor (fuel + 1) (escapeChar character ++ rest) = (decodeFor fuel rest).map (character :: ·) := by
  rcases escape_char_cases character with
    ⟨letter, shape, notUnicode, simple⟩ | ⟨shape, _, backslash, visible⟩ | ⟨shape, basic⟩ | ⟨shape, astral⟩
  · rw [shape]
    refine decode_escape fuel (letter :: rest) character rest ?_
    rw [unescape, if_neg notUnicode, simple, Option.map_some]
  · rw [shape, List.cons_append, List.nil_append, decodeFor, if_neg backslash, if_neg visible]
  · rw [shape]
    exact decode_escape fuel _ character rest (unescape_basic character basic rest)
  · rw [shape, List.append_assoc]
    exact decode_escape fuel _ character rest (unescape_pair character astral rest)

theorem escape_char_nonempty (character : Char) : 0 < (escapeChar character).length := by
  rcases escape_char_cases character with ⟨letter, shape, _⟩ | ⟨shape, _⟩ | ⟨shape, _⟩ | ⟨shape, _⟩ <;>
    simp [shape, unicodeEscaped]

theorem decode_escape_text (text : Text) (fuel : Nat) (enough : (escapeText text).length ≤ fuel) :
    decodeFor fuel (escapeText text) = some text := by
  induction text generalizing fuel with
  | nil => cases fuel <;> rfl
  | cons head tail ih =>
      rw [escapeText, List.flatMap_cons] at enough ⊢
      have written : 0 < (escapeChar head).length := escape_char_nonempty head
      rw [List.length_append] at enough
      obtain ⟨fuel, rfl⟩ := Nat.exists_eq_succ_of_ne_zero (by omega : fuel ≠ 0)
      rw [decode_escape_char, ← escapeText, ih fuel (by rw [escapeText]; omega), Option.map_some]

theorem read_string_quoted (text rest : Text) :
    readString (escapeText text ++ '"' :: rest) = some (text, rest) := by
  rw [readString, string_body_text, Option.bind_some, decode_escape_text text _ (Nat.le_refl _), Option.map_some]

theorem string_body_append (escaped : Bool) (input raw rest more : Text)
    (found : stringBody escaped input = some (raw, rest)) :
    stringBody escaped (input ++ more) = some (raw, rest ++ more) := by
  induction input generalizing escaped raw with
  | nil => cases escaped <;> cases found
  | cons head tail ih =>
      cases escaped with
      | true =>
          simp only [stringBody, Option.map_eq_some_iff] at found
          obtain ⟨body, inner, same⟩ := found
          cases same
          rw [List.cons_append, stringBody, ih false body.1 inner, Option.map_some]
      | false =>
          rw [stringBody] at found
          rw [List.cons_append, stringBody]
          by_cases quote : head = '"'
          · simp only [quote, if_true, Option.some.injEq, Prod.mk.injEq] at found ⊢
            exact ⟨found.1, congrArg (· ++ more) found.2⟩
          · rw [if_neg quote, Option.map_eq_some_iff] at found
            obtain ⟨body, inner, same⟩ := found
            cases same
            rw [if_neg quote, ih _ body.1 inner, Option.map_some]

theorem read_string_append (input text rest more : Text) (found : readString input = some (text, rest)) :
    readString (input ++ more) = some (text, rest ++ more) := by
  rw [readString, Option.bind_eq_some_iff] at found
  obtain ⟨body, inner, decoded⟩ := found
  rw [Option.map_eq_some_iff] at decoded
  obtain ⟨text, decoded, same⟩ := decoded
  cases same
  rw [readString, string_body_append false input body.1 body.2 more inner, Option.bind_some, decoded, Option.map_some]

end AppFit.JsonText
