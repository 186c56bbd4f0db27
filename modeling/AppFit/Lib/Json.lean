import AppFit.Lib.Bytes

/- JSON arrays of strings, decoded the way a streaming decoder does: the first
   value is read and what follows it is left alone. Other elements than strings
   are refused. -/
set_option autoImplicit false

namespace AppFit.Json

open AppFit.Scan AppFit.Encoding

def isSpace (item : UInt8) : Bool := item = 32 || item = 9 || item = 10 || item = 13

def skipSpace (input : Bytes) : Bytes := input.dropWhile isSpace

def hex4 (input : Bytes) : Option (Nat × Bytes) :=
  if 4 ≤ input.length ∧ (input.take 4).all isHex then some (numeral 16 (input.take 4), input.drop 4) else none

def surrogateChar (high low : Nat) : Char := Char.ofNat (0x10000 + (high - 0xD800) * 0x400 + (low - 0xDC00))

-- A surrogate pair is one character, a surrogate alone is the replacement character.
def pairedSurrogate (high : Nat) (after : Bytes) : Option (Bytes × Bytes) :=
  if 0xD800 ≤ high ∧ high < 0xDC00 ∧ after.take 2 = [backslash, byte 'u'] then
    match hex4 (after.drop 2) with
    | some (low, left) =>
        if 0xDC00 ≤ low ∧ low < 0xE000 then
          some (String.utf8EncodeChar (surrogateChar high low), left)
        else none
    | none => none
  else none

def unicodeEscape (rest : Bytes) : Option (Bytes × Bytes) :=
  (hex4 rest).map fun read =>
    if 0xD800 ≤ read.1 ∧ read.1 < 0xE000 then (pairedSurrogate read.1 read.2).getD (replacementCharacter, read.2)
    else (String.utf8EncodeChar (Char.ofNat read.1), read.2)

def simpleEscape (letter : UInt8) : Option UInt8 :=
  if letter = quote ∨ letter = backslash ∨ letter = byte '/' then some letter
  else if letter = byte 'b' then some 8
  else if letter = byte 'f' then some 12
  else if letter = byte 'n' then some 10
  else if letter = byte 'r' then some 13
  else if letter = byte 't' then some 9
  else none

def escape : Bytes → Option (Bytes × Bytes)
  | [] => none
  | letter :: rest =>
      if letter = byte 'u' then unicodeEscape rest else (simpleEscape letter).map fun value => ([value], rest)

def string : Nat → Bytes → Option (Bytes × Bytes)
  | 0, _ => none
  | _ + 1, [] => none
  | fuel + 1, head :: rest =>
      if head = quote then some ([], rest)
      else if head = backslash then
        (escape rest).bind fun read => (string fuel read.2).map fun more => (read.1 ++ more.1, more.2)
      else if head < 32 then none
      else (string fuel rest).map fun more => (head :: more.1, more.2)

def elements : Nat → Bytes → Option (List Bytes)
  | 0, _ => none
  | fuel + 1, input =>
      match skipSpace input with
      | [] => none
      | start :: rest =>
          if start = quote then
            (string (rest.length + 1) rest).bind fun read =>
              match skipSpace read.2 with
              | [] => none
              | separator :: more =>
                  if separator = byte ',' then (elements fuel more).map (toValid.run read.1 :: ·)
                  else if separator = byte ']' then some [toValid.run read.1]
                  else none
          else none

def array (input : Bytes) : Option (List Bytes) :=
  match skipSpace input with
  | [] => none
  | start :: rest =>
      if start = byte '[' then
        if (skipSpace rest).head? = some (byte ']') then some [] else elements (rest.length + 1) rest
      else none

def plain (item : UInt8) : Prop := item ≠ quote ∧ item ≠ backslash ∧ ¬ item < 32

instance (item : UInt8) : Decidable (plain item) :=
  inferInstanceAs (Decidable (item ≠ quote ∧ item ≠ backslash ∧ ¬ item < 32))

theorem plain_of_all (text : Bytes) (checked : text.all (fun item => decide (plain item)) = true) :
    ∀ item ∈ text, plain item := by
  intro item member
  exact of_decide_eq_true (List.all_eq_true.mp checked item member)

theorem plain_high (item : UInt8) (high : 0x80 ≤ item) : plain item := by
  rw [UInt8.le_iff_toNat_le] at high
  refine ⟨?_, ?_, ?_⟩
  · intro same
    subst same
    exact absurd high (by decide)
  · intro same
    subst same
    exact absurd high (by decide)
  · rw [UInt8.lt_iff_toNat_lt]
    intro low
    have bound : (0x80 : UInt8).toNat = 128 := rfl
    have thirtyTwo : (32 : UInt8).toNat = 32 := rfl
    omega

theorem string_plain (text rest : Bytes) (fuel : Nat) (all : ∀ item ∈ text, plain item) (enough : text.length < fuel) :
    string fuel (text ++ quote :: rest) = some (text, rest) := by
  induction text generalizing fuel with
  | nil =>
      cases fuel with
      | zero => cases enough
      | succ fuel => rfl
  | cons head tail ih =>
      cases fuel with
      | zero => cases enough
      | succ fuel =>
          obtain ⟨notQuote, notEscape, printable⟩ := all head List.mem_cons_self
          have later := ih fuel (fun item member => all item (List.mem_cons_of_mem _ member))
            (Nat.lt_of_succ_lt_succ enough)
          rw [List.cons_append, string, if_neg notQuote, if_neg notEscape, if_neg printable, later]
          rfl

theorem hex4_weight (weights : Weights) (input after : Bytes) (value : Nat) (read : hex4 input = some (value, after)) :
    weight weights.weigh after ≤ weight weights.weigh input := by
  rw [hex4] at read
  split at read
  · cases read
    exact weight_drop_le weights 4 input
  · cases read

theorem paired_weight (weights : Weights) (high : Nat) (after out left : Bytes)
    (read : pairedSurrogate high after = some (out, left)) :
    weight weights.weigh out + weight weights.weigh left ≤ weights.weigh backslash + weight weights.weigh after := by
  rw [pairedSurrogate] at read
  split at read
  · split at read
    · rename_i low rest found
      split at read
      · obtain ⟨rfl, rfl⟩ := Prod.mk.inj (Option.some.inj read)
        have shorter := hex4_weight weights _ _ _ found
        have dropped := weight_drop_le weights 2 after
        have encoded := utf8_char_weight weights (surrogateChar high low)
        omega
      · cases read
    · cases read
  · cases read

theorem unicode_escape_weight (weights : Weights) (rest out left : Bytes)
    (read : unicodeEscape rest = some (out, left)) :
    weight weights.weigh out + weight weights.weigh left ≤ weights.weigh backslash + weight weights.weigh rest := by
  rw [unicodeEscape] at read
  cases found : hex4 rest with
  | none =>
      rw [found] at read
      cases read
  | some unit =>
      have shorter := hex4_weight weights rest unit.2 unit.1 found
      rw [found, Option.map_some, Option.some.injEq] at read
      split at read
      · cases paired : pairedSurrogate unit.1 unit.2 with
        | none =>
            rw [paired, Option.getD_none] at read
            cases read
            rw [replacement_weightless]
            omega
        | some pair =>
            rw [paired, Option.getD_some] at read
            cases read
            have lighter := paired_weight weights unit.1 unit.2 _ _ paired
            omega
      · cases read
        have encoded := utf8_char_weight weights (Char.ofNat unit.1)
        omega

theorem simple_escape_weight (weights : Weights) (letter value : UInt8) (read : simpleEscape letter = some value) :
    weights.weigh value < weights.weigh backslash + weights.weigh letter := by
  have named (meant : isAlnum letter = true) : weights.weigh value < weights.weigh backslash + weights.weigh letter := by
    have bound := weights.top value
    have positive := weights.alnum letter meant
    omega
  have positive := weights_backslash weights
  rw [simpleEscape] at read
  split_ifs at read with itself b f n r t
  · cases read
    omega
  · exact named (by rw [b]; decide)
  · exact named (by rw [f]; decide)
  · exact named (by rw [n]; decide)
  · exact named (by rw [r]; decide)
  · exact named (by rw [t]; decide)

theorem escape_weight (weights : Weights) (input out left : Bytes) (read : escape input = some (out, left)) :
    weight weights.weigh out + weight weights.weigh left < weights.weigh backslash + weight weights.weigh input := by
  cases input with
  | nil => cases read
  | cons letter rest =>
      rw [weight_cons]
      rw [escape] at read
      split at read
      · rename_i unicode
        have positive := weights.alnum letter (by rw [unicode]; decide)
        have lighter := unicode_escape_weight weights rest out left read
        omega
      · cases found : simpleEscape letter with
        | none =>
            rw [found] at read
            cases read
        | some value =>
            rw [found] at read
            cases read
            have lighter := simple_escape_weight weights letter value found
            rw [weight_cons, weight_nil]
            omega

-- A string is either copied, all its bytes being plain, or it is worth less than
-- the text it was read from.
theorem string_weight (weights : Weights) (fuel : Nat) (input out left : Bytes)
    (read : string fuel input = some (out, left)) :
    weight weights.weigh out + weight weights.weigh left < weight weights.weigh input ∨
      input = out ++ quote :: left ∧ ∀ item ∈ out, plain item := by
  induction fuel generalizing input out with
  | zero => cases read
  | succ fuel ih =>
      cases input with
      | nil => cases read
      | cons head rest =>
          rw [string] at read
          rw [weight_cons]
          split_ifs at read with closing escapes control
          · cases read
            exact .inr ⟨by rw [closing]; rfl, fun item member => (by cases member)⟩
          · obtain ⟨read, found, read'⟩ := Option.bind_eq_some_iff.mp read
            obtain ⟨more, later, same⟩ := Option.map_eq_some_iff.mp read'
            cases same
            have first := escape_weight weights rest _ _ found
            apply Or.inl
            rw [weight_append, escapes]
            rcases ih _ _ later with less | ⟨split, _⟩
            · omega
            · rw [split, weight_append, weight_cons] at first
              omega
          · obtain ⟨more, later, same⟩ := Option.map_eq_some_iff.mp read
            cases same
            rcases ih _ _ later with less | ⟨split, all⟩
            · apply Or.inl
              rw [weight_cons]
              omega
            · refine .inr ⟨congrArg (head :: ·) split, ?_⟩
              intro item member
              rcases List.mem_cons.mp member with first | inside
              · rw [first]
                exact ⟨closing, escapes, control⟩
              · exact all item inside

theorem skip_space_split (input : Bytes) : ∃ spaces, input = spaces ++ skipSpace input ∧ backslash ∉ spaces := by
  refine ⟨input.takeWhile isSpace, List.takeWhile_append_dropWhile.symm, ?_⟩
  intro member
  have space : isSpace backslash = true := List.all_eq_true.mp List.all_takeWhile backslash member
  exact absurd space (by decide)

theorem elements_cases (fuel : Nat) (input : Bytes) (words : List Bytes) (read : elements (fuel + 1) input = some words) :
    ∃ rest text after separator more later,
      skipSpace input = quote :: rest ∧ string (rest.length + 1) rest = some (text, after) ∧
        skipSpace after = separator :: more ∧ words = toValid.run text :: later ∧
        separator ≠ backslash ∧ (elements fuel more = some later ∨ later = []) := by
  rw [elements] at read
  split at read
  · cases read
  · rename_i start rest opened
    split at read
    · rename_i isQuote
      obtain ⟨⟨text, after⟩, found, read⟩ := Option.bind_eq_some_iff.mp read
      dsimp only at read
      split at read
      · cases read
      · rename_i separator more closed
        split_ifs at read with comma bracket
        · obtain ⟨later, next, rfl⟩ := Option.map_eq_some_iff.mp read
          exact ⟨rest, text, after, separator, more, later, by rw [opened, isQuote], found, closed, rfl,
            by rw [comma]; decide, .inl next⟩
        · cases read
          exact ⟨rest, text, after, separator, more, [], by rw [opened, isQuote], found, closed, rfl,
            by rw [bracket]; decide, .inr rfl⟩
    · cases read

theorem weightless_unescaped (weights : Weights) (input : Bytes) :
    0 < weight weights.weigh input ∨ backslash ∉ input := by
  by_cases escaped : backslash ∈ input
  · have heavy := weigh_le_weight weights.weigh backslash input escaped
    exact .inl (Nat.lt_of_lt_of_le (weights_backslash weights) heavy)
  · exact .inr escaped

theorem elements_weight (weights : Weights) (fuel : Nat) (input : Bytes) (words : List Bytes)
    (read : elements fuel input = some words) :
    weight weights.weigh words.flatten < weight weights.weigh input ∨
      weight weights.weigh words.flatten ≤ weight weights.weigh input ∧ backslash ∉ input ∧
        ∀ word ∈ words, ∀ item ∈ word, plain item := by
  induction fuel generalizing input words with
  | zero => cases read
  | succ fuel ih =>
      obtain ⟨rest, text, after, separator, more, later, opened, found, closed, rfl, notEscape, next⟩ :=
        elements_cases fuel input words read
      obtain ⟨spaces, split, spacesFree⟩ := skip_space_split input
      obtain ⟨gap, gapSplit, gapFree⟩ := skip_space_split after
      rw [opened] at split
      rw [closed] at gapSplit
      have remaining : weight weights.weigh later.flatten < weight weights.weigh more ∨
          weight weights.weigh later.flatten ≤ weight weights.weigh more ∧ backslash ∉ more ∧
            ∀ word ∈ later, ∀ item ∈ word, plain item := by
        rcases next with next | rfl
        · exact ih more later next
        · rcases weightless_unescaped weights more with heavy | unescaped
          · exact .inl heavy
          · exact .inr ⟨Nat.zero_le _, unescaped, fun word member => (by cases member)⟩
      have repaired := to_valid_weight_le weights text
      rw [List.flatten_cons, weight_append]
      have total : weight weights.weigh input =
          weight weights.weigh spaces + (weights.weigh quote + weight weights.weigh rest) := by
        rw [split, weight_append, weight_cons]
      have trailing : weight weights.weigh after =
          weight weights.weigh gap + (weights.weigh separator + weight weights.weigh more) := by
        rw [gapSplit, weight_append, weight_cons]
      rcases string_weight weights _ rest text after found with less | ⟨copied, all⟩
      · apply Or.inl
        rcases remaining with lighter | ⟨bound, _⟩
        · omega
        · omega
      · have restWeight : weight weights.weigh rest =
            weight weights.weigh text + (weights.weigh quote + weight weights.weigh after) := by
          rw [copied, weight_append, weight_cons]
        rcases remaining with lighter | ⟨bound, moreFree, laterPlain⟩
        · exact .inl (by omega)
        · refine .inr ⟨by omega, ?_, ?_⟩
          · rw [split, copied, gapSplit]
            simp only [List.mem_append, List.mem_cons, not_or]
            exact ⟨spacesFree, by decide, fun member => (all backslash member).2.1 rfl, by decide, gapFree,
              notEscape.symm, moreFree⟩
          · intro word member
            rcases List.mem_cons.mp member with first | inside
            · rw [first]
              exact to_valid_all plain plain_high text all
            · exact laterPlain word inside

theorem elements_next (fuel : Nat) (input text more : Bytes)
    (start : skipSpace input = quote :: (text ++ quote :: byte ',' :: more)) (all : ∀ item ∈ text, plain item) :
    elements (fuel + 1) input = (elements fuel more).map (toValid.run text :: ·) := by
  have read := string_plain text (byte ',' :: more) ((text ++ quote :: byte ',' :: more).length + 1) all (by
    rw [List.length_append]
    omega)
  rw [elements, start]
  simp only [if_pos, read, Option.bind_some]
  rfl

theorem elements_last (fuel : Nat) (input text more : Bytes)
    (start : skipSpace input = quote :: (text ++ quote :: byte ']' :: more)) (all : ∀ item ∈ text, plain item) :
    elements (fuel + 1) input = some [toValid.run text] := by
  have read := string_plain text (byte ']' :: more) ((text ++ quote :: byte ']' :: more).length + 1) all (by
    rw [List.length_append]
    omega)
  rw [elements, start]
  simp only [if_pos, read, Option.bind_some]
  rfl

end AppFit.Json
