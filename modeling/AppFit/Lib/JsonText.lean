import AppFit.Lib.JsonString

/- Python's json.dump and json.load on whole texts. The encoder writes piece by
   piece with the separators of the default encoder and an optional indentation,
   so an exception leaves what was written before it. A number is kept as its
   literal. The members of an object are kept in the order they are written in,
   equal keys included: what a dict makes of them is up to its user. -/
set_option autoImplicit false

namespace AppFit.JsonText

open AppFit.Shell

def literalCharacter (character : Char) : Bool :=
  character.isAlphanum || character = '+' || character = '-' || character = '.'

def isExponent : Text → Bool
  | [] => true
  | mark :: rest =>
      let digits := if rest.head? = some '+' ∨ rest.head? = some '-' then rest.tail else rest
      (mark = 'e' || mark = 'E') && !digits.isEmpty && digits.all Char.isDigit

def isFraction : Text → Bool
  | [] => true
  | head :: rest =>
      if head = '.' then !(rest.takeWhile Char.isDigit).isEmpty && isExponent (rest.dropWhile Char.isDigit)
      else isExponent (head :: rest)

def isNumber (text : Text) : Bool :=
  let unsigned := if text.head? = some '-' then text.tail else text
  let whole := unsigned.takeWhile Char.isDigit
  (whole = ['0'] || (!whole.isEmpty && whole.head? ≠ some '0')) && isFraction (unsigned.dropWhile Char.isDigit)

def constants : List Text :=
  ["null".toList, "true".toList, "false".toList, "NaN".toList, "Infinity".toList, "-Infinity".toList]

def isLiteral (text : Text) : Bool := text.all literalCharacter && (constants.contains text || isNumber text)

structure Literal where
  text : Text
  valid : isLiteral text = true
deriving DecidableEq

-- foreign is a value the encoder raises an exception on.
inductive Value where
  | literal (literal : Literal)
  | str (text : Text)
  | list (items : List Value)
  | dict (members : List (Text × Value))
  | foreign

structure Written where
  text : Text
  completed : Bool

def write (text : Text) : Written := ⟨text, true⟩

def andThen (first second : Written) : Written :=
  if first.completed then ⟨first.text ++ second.text, second.completed⟩ else first

def newline : Option Nat → Nat → Text
  | none, _ => []
  | some width, level => '\n' :: List.replicate (width * level) ' '

def dumpMore (indent : Option Nat) (level : Nat) : List Written → Written
  | [] => write []
  | piece :: pieces =>
      andThen (write (',' :: ' ' :: newline indent level)) (andThen piece (dumpMore indent level pieces))

def enclosed (indent : Option Nat) (level : Nat) (opening closing : Char) : List Written → Written
  | [] => write [opening, closing]
  | piece :: pieces =>
      andThen (write (opening :: newline indent (level + 1)))
        (andThen piece
          (andThen (dumpMore indent (level + 1) pieces) (write (newline indent level ++ [closing]))))

mutual

def dump (indent : Option Nat) : Nat → Value → Written
  | _, .literal literal => write literal.text
  | _, .str text => write (quoted text)
  | level, .list items => enclosed indent level '[' ']' (dumpItems indent (level + 1) items)
  | level, .dict members => enclosed indent level '{' '}' (dumpMembers indent (level + 1) members)
  | _, .foreign => ⟨[], false⟩

def dumpItems (indent : Option Nat) : Nat → List Value → List Written
  | _, [] => []
  | level, item :: items => dump indent level item :: dumpItems indent level items

def dumpMembers (indent : Option Nat) : Nat → List (Text × Value) → List Written
  | _, [] => []
  | level, (key, value) :: members =>
      andThen (write (quoted key ++ [':', ' '])) (dump indent level value) :: dumpMembers indent level members

end

def keyLe : Text → Text → Bool
  | [], _ => true
  | _ :: _, [] => false
  | one :: ones, other :: others => if one = other then keyLe ones others else one.toNat < other.toNat

-- sort_keys: every object of the value is written in the order of its keys.
mutual

def sortKeys : Value → Value
  | .literal literal => .literal literal
  | .str text => .str text
  | .list items => .list (sortItems items)
  | .dict members => .dict ((sortMembers members).mergeSort fun one other => keyLe one.1 other.1)
  | .foreign => .foreign

def sortItems : List Value → List Value
  | [] => []
  | item :: items => sortKeys item :: sortItems items

def sortMembers : List (Text × Value) → List (Text × Value)
  | [] => []
  | (key, item) :: members => (key, sortKeys item) :: sortMembers members

end

def isSpace (character : Char) : Bool :=
  character = ' ' || character = '\t' || character = '\n' || character = '\r'

def skipSpace (input : Text) : Text := input.dropWhile isSpace

section Separated

variable {Element : Type}

def moreOf (closing : Char) (read : Text → Option (Element × Text)) : Nat → Text → Option (List Element × Text)
  | 0, _ => none
  | fuel + 1, input =>
      match skipSpace input with
      | [] => none
      | head :: tail =>
          if head = closing then some ([], tail)
          else if head = ',' then
            (read tail).bind fun first =>
              (moreOf closing read fuel first.2).map fun more => (first.1 :: more.1, more.2)
          else none

-- The elements after the opening bracket, up to the closing one.
def separated (closing : Char) (read : Text → Option (Element × Text)) (input : Text) :
    Option (List Element × Text) :=
  match skipSpace input with
  | [] => none
  | head :: tail =>
      if head = closing then some ([], tail)
      else
        (read (head :: tail)).bind fun first =>
          (moreOf closing read input.length first.2).map fun more => (first.1 :: more.1, more.2)

end Separated

def readLiteral (input : Text) : Option (Value × Text) :=
  if valid : isLiteral (input.takeWhile literalCharacter) = true then
    some (.literal ⟨input.takeWhile literalCharacter, valid⟩, input.dropWhile literalCharacter)
  else none

def member (read : Text → Option (Value × Text)) (input : Text) : Option ((Text × Value) × Text) :=
  match skipSpace input with
  | [] => none
  | head :: tail =>
      if head = '"' then
        (readString tail).bind fun key =>
          match skipSpace key.2 with
          | [] => none
          | colon :: rest =>
              if colon = ':' then (read rest).map fun value => ((key.1, value.1), value.2) else none
      else none

def value : Nat → Text → Option (Value × Text)
  | 0, _ => none
  | depth + 1, input =>
      match skipSpace input with
      | [] => none
      | head :: tail =>
          if head = '"' then (readString tail).map fun text => (.str text.1, text.2)
          else if head = '[' then (separated ']' (value depth) tail).map fun items => (.list items.1, items.2)
          else if head = '{' then
            (separated '}' (member (value depth)) tail).map fun members => (.dict members.1, members.2)
          else readLiteral (head :: tail)

def loads (input : Text) : Option Value :=
  (value (input.length + 1) input).bind fun read => if read.2.all isSpace then some read.1 else none

theorem skip_space_append (input more : Text) (head : Char) (tail : Text) (found : skipSpace input = head :: tail) :
    skipSpace (input ++ more) = head :: (tail ++ more) := by
  rw [skipSpace] at found
  rw [skipSpace, List.dropWhile_append, found]
  rfl

theorem skip_space_spaces (space rest : Text) (blank : space.all isSpace = true) :
    skipSpace (space ++ rest) = skipSpace rest :=
  List.dropWhile_append_of_pos (fun character member => List.all_eq_true.mp blank character member)

theorem skip_space_head (head : Char) (tail : Text) (visible : isSpace head = false) :
    skipSpace (head :: tail) = head :: tail :=
  List.dropWhile_cons_of_neg (by simp [visible])

section Append

variable {Element : Type}

theorem more_close (closing : Char) (read : Text → Option (Element × Text)) (fuel : Nat) (input tail : Text)
    (start : skipSpace input = closing :: tail) : moreOf closing read (fuel + 1) input = some ([], tail) := by
  simp only [moreOf, start, if_true]

theorem more_comma (closing : Char) (read : Text → Option (Element × Text)) (fuel : Nat) (input tail : Text)
    (start : skipSpace input = ',' :: tail) (other : ',' ≠ closing) :
    moreOf closing read (fuel + 1) input =
      (read tail).bind fun first =>
        (moreOf closing read fuel first.2).map fun more => (first.1 :: more.1, more.2) := by
  simp only [moreOf, start, other, if_false, if_true]

theorem more_cases (closing : Char) (read : Text → Option (Element × Text)) (fuel : Nat) (input : Text)
    (elements : List Element) (rest : Text) (found : moreOf closing read (fuel + 1) input = some (elements, rest)) :
    (skipSpace input = closing :: rest ∧ elements = []) ∨
      ∃ tail first others, skipSpace input = ',' :: tail ∧ ',' ≠ closing ∧ read tail = some first ∧
        moreOf closing read fuel first.2 = some (others, rest) ∧ elements = first.1 :: others := by
  cases start : skipSpace input with
  | nil => simp [moreOf, start] at found
  | cons head tail =>
      by_cases closes : head = closing
      · subst closes
        rw [more_close head read fuel input tail start] at found
        cases found
        exact .inl ⟨rfl, rfl⟩
      · by_cases comma : head = ','
        · subst comma
          rw [more_comma closing read fuel input tail start closes, Option.bind_eq_some_iff] at found
          obtain ⟨first, reads, found⟩ := found
          obtain ⟨others, goesOn, same⟩ := Option.map_eq_some_iff.mp found
          cases same
          exact .inr ⟨tail, first, others.1, rfl, closes, reads, goesOn, rfl⟩
        · simp [moreOf, start, closes, comma] at found

theorem more_nonempty (closing : Char) (read : Text → Option (Element × Text)) (fuel : Nat) (input : Text)
    (found : (moreOf closing read fuel input).isSome) : input ≠ [] := by
  intro same
  subst same
  cases fuel <;> simp [moreOf, skipSpace] at found

-- What was read stays read when the text goes on. A literal at the very end may
-- go on with it, so something has to be left.
def Extends (more : Text) (short long : Text → Option (Element × Text)) : Prop :=
  ∀ input element rest, short input = some (element, rest) → rest ≠ [] →
    long (input ++ more) = some (element, rest ++ more)

theorem more_append (more : Text) (closing : Char) (short long : Text → Option (Element × Text))
    (reads : Extends more short long) (fuel bound : Nat) (enough : fuel ≤ bound) (input : Text)
    (elements : List Element) (rest : Text) (found : moreOf closing short fuel input = some (elements, rest)) :
    moreOf closing long bound (input ++ more) = some (elements, rest ++ more) := by
  induction fuel generalizing bound input elements rest with
  | zero => cases found
  | succ fuel ih =>
      obtain ⟨bound, rfl⟩ := Nat.exists_eq_succ_of_ne_zero (Nat.ne_zero_of_lt enough)
      rcases more_cases closing short fuel input elements rest found with
        ⟨start, rfl⟩ | ⟨tail, first, others, start, comma, read, goesOn, rfl⟩
      · exact more_close closing long bound (input ++ more) (rest ++ more) (skip_space_append _ _ _ _ start)
      · have left : first.2 ≠ [] := more_nonempty closing short fuel first.2 (by rw [goesOn]; rfl)
        have longer := reads tail first.1 first.2 read left
        have others := ih bound (Nat.le_of_succ_le_succ enough) first.2 others rest goesOn
        rw [more_comma closing long bound (input ++ more) (tail ++ more) (skip_space_append _ _ _ _ start) comma, longer,
          Option.bind_some, others, Option.map_some]

theorem separated_close (closing : Char) (read : Text → Option (Element × Text)) (input tail : Text)
    (start : skipSpace input = closing :: tail) : separated closing read input = some ([], tail) := by
  simp only [separated, start, if_true]

theorem separated_open (closing : Char) (read : Text → Option (Element × Text)) (input : Text) (head : Char)
    (tail : Text) (start : skipSpace input = head :: tail) (other : head ≠ closing) :
    separated closing read input =
      (read (head :: tail)).bind fun first =>
        (moreOf closing read input.length first.2).map fun more => (first.1 :: more.1, more.2) := by
  simp only [separated, start, other, if_false]

theorem separated_cases (closing : Char) (read : Text → Option (Element × Text)) (input : Text)
    (elements : List Element) (rest : Text) (found : separated closing read input = some (elements, rest)) :
    (skipSpace input = closing :: rest ∧ elements = []) ∨
      ∃ head tail first others, skipSpace input = head :: tail ∧ head ≠ closing ∧ read (head :: tail) = some first ∧
        moreOf closing read input.length first.2 = some (others, rest) ∧ elements = first.1 :: others := by
  cases start : skipSpace input with
  | nil => simp [separated, start] at found
  | cons head tail =>
      by_cases closes : head = closing
      · subst closes
        rw [separated_close head read input tail start] at found
        cases found
        exact .inl ⟨rfl, rfl⟩
      · rw [separated_open closing read input head tail start closes, Option.bind_eq_some_iff] at found
        obtain ⟨first, reads, found⟩ := found
        obtain ⟨others, goesOn, same⟩ := Option.map_eq_some_iff.mp found
        cases same
        exact .inr ⟨head, tail, first, others.1, rfl, closes, reads, goesOn, rfl⟩

theorem separated_append (more : Text) (closing : Char) (short long : Text → Option (Element × Text))
    (reads : Extends more short long) (input : Text) (elements : List Element) (rest : Text)
    (found : separated closing short input = some (elements, rest)) :
    separated closing long (input ++ more) = some (elements, rest ++ more) := by
  rcases separated_cases closing short input elements rest found with
    ⟨start, rfl⟩ | ⟨head, tail, first, others, start, opens, read, goesOn, rfl⟩
  · exact separated_close closing long (input ++ more) (rest ++ more) (skip_space_append _ _ _ _ start)
  · have left : first.2 ≠ [] := more_nonempty closing short input.length first.2 (by rw [goesOn]; rfl)
    have longer := reads (head :: tail) first.1 first.2 read left
    have enough : input.length ≤ (input ++ more).length := by simp
    have others := more_append more closing short long reads input.length _ enough first.2 others rest goesOn
    rw [separated_open closing long (input ++ more) head (tail ++ more) (skip_space_append _ _ _ _ start) opens,
      ← List.cons_append, longer, Option.bind_some, others, Option.map_some]

end Append

theorem read_literal_append (input more : Text) (element : Value) (rest : Text)
    (found : readLiteral input = some (element, rest)) (left : rest ≠ []) :
    readLiteral (input ++ more) = some (element, rest ++ more) := by
  rw [readLiteral] at found
  split at found
  case isFalse => cases found
  case isTrue valid =>
    cases found
    have stops : ¬ (input.takeWhile literalCharacter).length = input.length := by
      intro whole
      have joined := congrArg List.length (List.takeWhile_append_dropWhile (p := literalCharacter) (l := input))
      rw [List.length_append, whole] at joined
      exact left (List.length_eq_zero_iff.mp (by omega))
    have word : (input ++ more).takeWhile literalCharacter = input.takeWhile literalCharacter := by
      rw [List.takeWhile_append, if_neg stops]
    have after : (input ++ more).dropWhile literalCharacter = input.dropWhile literalCharacter ++ more := by
      rw [List.dropWhile_append, if_neg (by simpa using left)]
    simp only [readLiteral, word, after, valid, dif_pos]

theorem member_cases (read : Text → Option (Value × Text)) (input : Text) (entry : Text × Value) (rest : Text)
    (found : member read input = some (entry, rest)) :
    ∃ tail between after, skipSpace input = '"' :: tail ∧ readString tail = some (entry.1, between) ∧
      skipSpace between = ':' :: after ∧ read after = some (entry.2, rest) := by
  cases start : skipSpace input with
  | nil => simp [member, start] at found
  | cons head tail =>
      by_cases quote : head = '"'
      · subst quote
        simp only [member, start, if_true, Option.bind_eq_some_iff] at found
        obtain ⟨key, named, found⟩ := found
        cases colon : skipSpace key.2 with
        | nil => simp [colon] at found
        | cons mark after =>
            by_cases isColon : mark = ':'
            · subst isColon
              simp only [colon, if_true, Option.map_eq_some_iff] at found
              obtain ⟨value, reads, same⟩ := found
              cases same
              exact ⟨tail, key.2, after, rfl, named, colon, reads⟩
            · simp [colon, isColon] at found
      · simp [member, start, quote] at found

theorem member_append (more : Text) (short long : Text → Option (Value × Text)) (reads : Extends more short long) :
    Extends more (member short) (member long) := by
  intro input entry rest found left
  obtain ⟨tail, between, after, start, named, colon, read⟩ := member_cases short input entry rest found
  simp only [member, skip_space_append input more _ _ start, if_true, read_string_append tail entry.1 between more named,
    Option.bind_some, skip_space_append between more _ _ colon, reads after entry.2 rest read left, Option.map_some]

theorem value_start (depth : Nat) (input : Text) (head : Char) (tail : Text) (start : skipSpace input = head :: tail) :
    value (depth + 1) input =
      if head = '"' then (readString tail).map fun text => (.str text.1, text.2)
      else if head = '[' then (separated ']' (value depth) tail).map fun items => (.list items.1, items.2)
      else if head = '{' then
        (separated '}' (member (value depth)) tail).map fun members => (.dict members.1, members.2)
      else readLiteral (head :: tail) := by
  simp only [value, start]

theorem value_append (more : Text) (depth bound : Nat) (enough : depth ≤ bound) :
    Extends more (value depth) (value bound) := by
  induction depth generalizing bound with
  | zero =>
      intro input element rest found
      cases found
  | succ depth ih =>
      obtain ⟨bound, rfl⟩ := Nat.exists_eq_succ_of_ne_zero (Nat.ne_zero_of_lt enough)
      have inner := ih bound (Nat.le_of_succ_le_succ enough)
      intro input element rest found left
      cases start : skipSpace input with
      | nil => simp [value, start] at found
      | cons head tail =>
          rw [value_start depth input head tail start] at found
          rw [value_start bound (input ++ more) head (tail ++ more) (skip_space_append input more head tail start)]
          split_ifs at found ⊢
          · obtain ⟨text, read, same⟩ := Option.map_eq_some_iff.mp found
            cases same
            rw [read_string_append tail text.1 text.2 more read, Option.map_some]
          · obtain ⟨items, read, same⟩ := Option.map_eq_some_iff.mp found
            cases same
            rw [separated_append more ']' _ _ inner tail items.1 items.2 read, Option.map_some]
          · obtain ⟨members, read, same⟩ := Option.map_eq_some_iff.mp found
            cases same
            rw [separated_append more '}' _ _ (member_append more _ _ inner) tail members.1 members.2 read,
              Option.map_some]
          · exact read_literal_append (head :: tail) more element rest found left

end AppFit.JsonText
