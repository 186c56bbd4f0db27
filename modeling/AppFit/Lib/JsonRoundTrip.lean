import AppFit.Lib.JsonText

/- json.load inverts json.dump on every value the encoder accepts, and an object
   whose text was cut short anywhere, by an exception of the encoder or by the end
   of the process, is no JSON text at all. -/
set_option autoImplicit false

namespace AppFit.JsonText

open AppFit.Shell

theorem and_then_completed (first second : Written) :
    (andThen first second).completed = (first.completed && second.completed) := by
  rw [andThen]
  cases done : first.completed <;> simp [done]

theorem and_then_text (first second : Written) (done : first.completed = true) :
    (andThen first second).text = first.text ++ second.text := by
  rw [andThen, if_pos done]

theorem write_then (text : Text) (second : Written) : (andThen (write text) second).text = text ++ second.text :=
  and_then_text (write text) second rfl

theorem newline_blank (indent : Option Nat) (level : Nat) : (newline indent level).all isSpace = true := by
  cases indent with
  | none => rfl
  | some width =>
      rw [newline, List.all_cons, Bool.and_eq_true]
      exact ⟨by decide, List.all_eq_true.mpr fun character member => by rw [List.eq_of_mem_replicate member]; decide⟩

-- A literal ends where such a text begins.
def Boundary (rest : Text) : Prop := ∀ head ∈ rest.head?, literalCharacter head = false

theorem boundary_cons (head : Char) (tail : Text) (mark : literalCharacter head = false) : Boundary (head :: tail) := by
  intro other member
  cases member
  exact mark

theorem boundary_newline (indent : Option Nat) (level : Nat) (closing : Char) (rest : Text)
    (mark : literalCharacter closing = false) : Boundary (newline indent level ++ closing :: rest) := by
  cases indent with
  | none => exact boundary_cons closing rest mark
  | some width => exact boundary_cons '\n' _ (by decide)

section Pieces

variable {Element : Type}

structure Restores (closing : Char) (read : Text → Option (Element × Text)) (piece : Written) (element : Element) :
    Prop where
  completed : piece.completed = true
  start : ∃ head tail, piece.text = head :: tail ∧ isSpace head = false ∧ head ≠ closing
  read : ∀ space rest, space.all isSpace = true → Boundary rest → read (space ++ (piece.text ++ rest)) = some (element, rest)

variable (indent : Option Nat) (level : Nat) (closing : Char)

theorem dump_more_completed (read : Text → Option (Element × Text)) (pieces : List Written) (elements : List Element)
    (restores : List.Forall₂ (Restores closing read) pieces elements) :
    (dumpMore indent level pieces).completed = true ∧ pieces.length ≤ (dumpMore indent level pieces).text.length := by
  induction restores with
  | nil => exact ⟨rfl, Nat.le_refl _⟩
  | cons first others ih =>
      rw [dumpMore, and_then_completed, and_then_completed, first.completed, ih.1, write_then,
        and_then_text _ _ first.completed]
      refine ⟨rfl, ?_⟩
      simp only [List.length_cons, List.length_append]
      omega

theorem boundary_more (pieces : List Written) (rest : Text) (boundary : Boundary rest) :
    Boundary ((dumpMore indent level pieces).text ++ rest) := by
  cases pieces with
  | nil => exact boundary
  | cons piece pieces =>
      rw [dumpMore, write_then]
      exact boundary_cons ',' _ (by decide)

variable (visible : isSpace closing = false) (mark : literalCharacter closing = false) (other : ',' ≠ closing)

include visible mark other

theorem more_pieces (outer : Nat) (read : Text → Option (Element × Text)) (pieces : List Written)
    (elements : List Element) (restores : List.Forall₂ (Restores closing read) pieces elements) (fuel : Nat)
    (enough : pieces.length < fuel) (rest : Text) :
    moreOf closing read fuel ((dumpMore indent level pieces).text ++ (newline indent outer ++ closing :: rest)) =
      some (elements, rest) := by
  induction restores generalizing fuel with
  | nil =>
      obtain ⟨fuel, rfl⟩ := Nat.exists_eq_succ_of_ne_zero (Nat.ne_zero_of_lt enough)
      refine more_close closing read fuel _ rest ?_
      rw [dumpMore, write, List.nil_append, skip_space_spaces _ _ (newline_blank indent outer),
        skip_space_head closing rest visible]
  | @cons piece element pieces elements first others ih =>
      obtain ⟨fuel, rfl⟩ := Nat.exists_eq_succ_of_ne_zero (Nat.ne_zero_of_lt enough)
      have found := ih fuel (Nat.lt_of_succ_lt_succ enough)
      have start : skipSpace ((dumpMore indent level (piece :: pieces)).text ++
            (newline indent outer ++ closing :: rest)) =
          ',' :: ((' ' :: newline indent level) ++ (piece.text ++ ((dumpMore indent level pieces).text ++
            (newline indent outer ++ closing :: rest)))) := by
        rw [dumpMore, write_then, and_then_text piece _ first.completed]
        simp only [List.cons_append, List.append_assoc]
        exact skip_space_head ',' _ (by decide)
      have blank : (' ' :: newline indent level).all isSpace = true := by
        rw [List.all_cons, newline_blank]
        rfl
      have boundary := boundary_more indent level pieces _ (boundary_newline indent outer closing rest mark)
      rw [more_comma closing read fuel _ _ start other, first.read _ _ blank boundary, Option.bind_some, found,
        Option.map_some]

theorem separated_pieces (opening : Char) (read : Text → Option (Element × Text)) (pieces : List Written)
    (elements : List Element) (restores : List.Forall₂ (Restores closing read) pieces elements) (rest : Text) :
    ∃ body, (enclosed indent level opening closing pieces).text = opening :: body ∧
      separated closing read (body ++ rest) = some (elements, rest) := by
  cases restores with
  | nil => exact ⟨[closing], rfl, separated_close closing read _ rest (skip_space_head closing rest visible)⟩
  | @cons piece element pieces elements first others =>
      obtain ⟨head, tail, begins, solid, opens⟩ := first.start
      obtain ⟨completed, long⟩ := dump_more_completed indent (level + 1) closing read pieces elements others
      let body := newline indent (level + 1) ++ (piece.text ++ ((dumpMore indent (level + 1) pieces).text ++
        (newline indent level ++ [closing])))
      have start : skipSpace (body ++ rest) = head :: (tail ++ ((dumpMore indent (level + 1) pieces).text ++
          (newline indent level ++ closing :: rest))) := by
        simp only [body, begins, List.append_assoc, List.cons_append, List.nil_append]
        rw [skip_space_spaces _ _ (newline_blank indent (level + 1)), skip_space_head _ _ solid]
      have enough : pieces.length < (body ++ rest).length := by
        simp only [body, List.length_append, List.length_cons]
        omega
      have boundary := boundary_more indent (level + 1) pieces _ (boundary_newline indent level closing rest mark)
      have read := first.read [] _ rfl boundary
      rw [begins, List.nil_append, List.cons_append] at read
      refine ⟨body, ?_, ?_⟩
      · rw [enclosed, write_then, and_then_text piece _ first.completed, and_then_text _ _ completed]
        rfl
      · rw [separated_open closing _ (body ++ rest) _ _ start opens, read, Option.bind_some,
          more_pieces indent (level + 1) closing visible mark other level _ pieces elements others _ enough rest,
          Option.map_some]

end Pieces

theorem literal_start (literal : Literal) :
    ∃ head tail, literal.text = head :: tail ∧ literalCharacter head = true := by
  have valid := literal.valid
  rw [isLiteral, Bool.and_eq_true] at valid
  cases text : literal.text with
  | nil =>
      rw [text] at valid
      exact absurd valid.2 (by decide)
  | cons head tail =>
      rw [text] at valid
      exact ⟨head, tail, rfl, (Bool.and_eq_true _ _ ▸ valid.1).1⟩

theorem read_literal_text (literal : Literal) (rest : Text) (boundary : Boundary rest) :
    readLiteral (literal.text ++ rest) = some (.literal literal, rest) := by
  have all : ∀ character ∈ literal.text, literalCharacter character = true := by
    have valid := literal.valid
    rw [isLiteral, Bool.and_eq_true] at valid
    exact List.all_eq_true.mp valid.1
  have stops : rest.takeWhile literalCharacter = [] ∧ rest.dropWhile literalCharacter = rest := by
    cases rest with
    | nil => exact ⟨rfl, rfl⟩
    | cons head tail =>
        have mark := boundary head rfl
        exact ⟨List.takeWhile_cons_of_neg (by simp [mark]), List.dropWhile_cons_of_neg (by simp [mark])⟩
  have word : (literal.text ++ rest).takeWhile literalCharacter = literal.text := by
    rw [List.takeWhile_append_of_pos all, stops.1, List.append_nil]
  have after : (literal.text ++ rest).dropWhile literalCharacter = rest := by
    rw [List.dropWhile_append_of_pos all, stops.2]
  simp only [readLiteral, word, after, literal.valid, dif_pos]

theorem dump_more_pieces (indent : Option Nat) (level : Nat) (pieces : List Written)
    (done : (dumpMore indent level pieces).completed = true) (piece : Written) (member : piece ∈ pieces) :
    piece.completed = true ∧ piece.text.length ≤ (dumpMore indent level pieces).text.length := by
  induction pieces with
  | nil => cases member
  | cons first others ih =>
      rw [dumpMore, and_then_completed, and_then_completed, Bool.and_eq_true, Bool.and_eq_true] at done
      rw [dumpMore, write_then, and_then_text _ _ done.2.1]
      simp only [List.length_append]
      rcases List.mem_cons.mp member with same | later
      · rw [same]
        exact ⟨done.2.1, by omega⟩
      · obtain ⟨completed, long⟩ := ih done.2.2 later
        exact ⟨completed, by omega⟩

theorem enclosed_pieces (indent : Option Nat) (level : Nat) (opening closing : Char) (pieces : List Written)
    (done : (enclosed indent level opening closing pieces).completed = true) (piece : Written)
    (member : piece ∈ pieces) :
    piece.completed = true ∧ piece.text.length < (enclosed indent level opening closing pieces).text.length := by
  cases pieces with
  | nil => cases member
  | cons first others =>
      simp only [enclosed, and_then_completed, Bool.and_eq_true] at done
      rw [enclosed, write_then, and_then_text _ _ done.2.1, and_then_text _ _ done.2.2.1]
      simp only [List.length_append, List.length_cons]
      rcases List.mem_cons.mp member with same | later
      · rw [same]
        exact ⟨done.2.1, by omega⟩
      · obtain ⟨completed, long⟩ := dump_more_pieces indent (level + 1) others done.2.2.1 piece later
        exact ⟨completed, by omega⟩

theorem literal_character_solid (character : Char) (literal : literalCharacter character = true) :
    isSpace character = false ∧ character ≠ ']' ∧ character ≠ '"' ∧ character ≠ '[' ∧ character ≠ '{' := by
  refine ⟨?_, ?_, ?_, ?_, ?_⟩
  · rw [← Bool.not_eq_true]
    intro space
    simp only [isSpace, Bool.or_eq_true, decide_eq_true_eq] at space
    rcases space with ((rfl | rfl) | rfl) | rfl <;> exact absurd literal (by decide)
  all_goals
    intro same
    subst same
    exact absurd literal (by decide)

theorem enclosed_start (indent : Option Nat) (level : Nat) (opening closing : Char) (pieces : List Written) :
    ∃ tail, (enclosed indent level opening closing pieces).text = opening :: tail := by
  cases pieces with
  | nil => exact ⟨_, rfl⟩
  | cons piece pieces =>
      rw [enclosed, write_then]
      exact ⟨_, rfl⟩

theorem dump_start (indent : Option Nat) (level : Nat) (item : Value) (done : (dump indent level item).completed = true) :
    ∃ head tail, (dump indent level item).text = head :: tail ∧ isSpace head = false ∧ head ≠ ']' := by
  cases item with
  | literal literal =>
      obtain ⟨head, tail, text, character⟩ := literal_start literal
      have solid := literal_character_solid head character
      exact ⟨head, tail, text, solid.1, solid.2.1⟩
  | str text => exact ⟨'"', _, rfl, by decide, by decide⟩
  | list items =>
      obtain ⟨tail, text⟩ := enclosed_start indent level '[' ']' (dumpItems indent (level + 1) items)
      exact ⟨'[', tail, text, by decide, by decide⟩
  | dict members =>
      obtain ⟨tail, text⟩ := enclosed_start indent level '{' '}' (dumpMembers indent (level + 1) members)
      exact ⟨'{', tail, text, by decide, by decide⟩
  | foreign => cases done

theorem member_restores (key : Text) (piece : Written) (element : Value) (read : Text → Option (Value × Text))
    (done : piece.completed = true)
    (reads : ∀ space rest, space.all isSpace = true → Boundary rest →
      read (space ++ (piece.text ++ rest)) = some (element, rest)) :
    Restores '}' (member read) (andThen (write (quoted key ++ [':', ' '])) piece) (key, element) where
  completed := by rw [and_then_completed, done]; rfl
  start := ⟨'"', escapeText key ++ '"' :: ':' :: ' ' :: piece.text, by simp [write_then, quoted], by decide, by decide⟩
  read := by
    intro space rest blank boundary
    have text : space ++ ((andThen (write (quoted key ++ [':', ' '])) piece).text ++ rest) =
        space ++ '"' :: (escapeText key ++ '"' :: ':' :: ([' '] ++ (piece.text ++ rest))) := by
      simp [write_then, quoted]
    have value := reads [' '] rest rfl boundary
    rw [text, member, skip_space_spaces space _ blank, skip_space_head '"' _ (by decide)]
    simp only [if_true, read_string_quoted, Option.bind_some, skip_space_head ':' _ (by decide : isSpace ':' = false),
      value, Option.map_some]

theorem spaces_start (space : Text) (head : Char) (tail : Text) (blank : space.all isSpace = true)
    (solid : isSpace head = false) : skipSpace (space ++ head :: tail) = head :: tail := by
  rw [skip_space_spaces space _ blank, skip_space_head head tail solid]

mutual

theorem value_dump (indent : Option Nat) (level depth : Nat) (item : Value)
    (done : (dump indent level item).completed = true) (enough : (dump indent level item).text.length ≤ depth)
    (space rest : Text) (blank : space.all isSpace = true) (boundary : Boundary rest) :
    value depth (space ++ ((dump indent level item).text ++ rest)) = some (item, rest) := by
  have positive : depth ≠ 0 := by
    obtain ⟨head, tail, text, _, _⟩ := dump_start indent level item done
    rw [text, List.length_cons] at enough
    omega
  obtain ⟨depth, rfl⟩ := Nat.exists_eq_succ_of_ne_zero positive
  cases item with
  | literal literal =>
      obtain ⟨head, tail, text, character⟩ := literal_start literal
      have solid := literal_character_solid head character
      have read := read_literal_text literal rest boundary
      rw [text, List.cons_append] at read
      rw [dump, write, text, List.cons_append, value_start depth _ _ _ (spaces_start space head _ blank solid.1)]
      simp only [solid.2.2.1, solid.2.2.2.1, solid.2.2.2.2, if_false, read]
  | str text =>
      have shape : (dump indent level (.str text)).text ++ rest = '"' :: (escapeText text ++ '"' :: rest) := by
        simp [dump, write, quoted]
      rw [shape, value_start depth _ _ _ (spaces_start space '"' _ blank (by decide)), if_pos rfl,
        read_string_quoted, Option.map_some]
  | list items =>
      rw [dump] at done enough ⊢
      have restored := items_dump indent (level + 1) depth items fun piece member => by
        obtain ⟨completed, long⟩ := enclosed_pieces indent level '[' ']' _ done piece member
        exact ⟨completed, by omega⟩
      obtain ⟨body, text, read⟩ := separated_pieces indent level ']' (by decide) (by decide) (by decide) '['
        (value depth) _ _ restored rest
      rw [text, List.cons_append, value_start depth _ _ _ (spaces_start space '[' _ blank (by decide)),
        if_neg (by decide), if_pos rfl, read, Option.map_some]
  | dict members =>
      rw [dump] at done enough ⊢
      have restored := members_dump indent (level + 1) depth members fun piece inside => by
        obtain ⟨completed, long⟩ := enclosed_pieces indent level '{' '}' _ done piece inside
        exact ⟨completed, by omega⟩
      obtain ⟨body, text, read⟩ := separated_pieces indent level '}' (by decide) (by decide) (by decide) '{'
        (member (value depth)) _ _ restored rest
      rw [text, List.cons_append, value_start depth _ _ _ (spaces_start space '{' _ blank (by decide)),
        if_neg (by decide), if_neg (by decide), if_pos rfl, read, Option.map_some]
  | foreign => cases done

theorem items_dump (indent : Option Nat) (level depth : Nat) (items : List Value)
    (done : ∀ piece ∈ dumpItems indent level items, piece.completed = true ∧ piece.text.length ≤ depth) :
    List.Forall₂ (Restores ']' (value depth)) (dumpItems indent level items) items := by
  cases items with
  | nil => exact .nil
  | cons item items =>
      have here := done (dump indent level item) List.mem_cons_self
      obtain ⟨head, tail, text, solid, opens⟩ := dump_start indent level item here.1
      refine .cons ⟨here.1, ⟨head, tail, text, solid, opens⟩, value_dump indent level depth item here.1 here.2⟩ ?_
      exact items_dump indent level depth items fun piece later => done piece (List.mem_cons_of_mem _ later)

theorem members_dump (indent : Option Nat) (level depth : Nat) (members : List (Text × Value))
    (done : ∀ piece ∈ dumpMembers indent level members, piece.completed = true ∧ piece.text.length ≤ depth) :
    List.Forall₂ (Restores '}' (member (value depth))) (dumpMembers indent level members) members := by
  cases members with
  | nil => exact .nil
  | cons entry members =>
      obtain ⟨key, item⟩ := entry
      have here := done (andThen (write (quoted key ++ [':', ' '])) (dump indent level item)) List.mem_cons_self
      rw [and_then_completed, Bool.and_eq_true, write_then] at here
      have short : (dump indent level item).text.length ≤ depth := by
        have long := here.2
        rw [List.length_append] at long
        omega
      refine .cons (member_restores key _ item _ here.1.2 (value_dump indent level depth item here.1.2 short)) ?_
      exact members_dump indent level depth members fun piece later => done piece (List.mem_cons_of_mem _ later)

end

theorem loads_dump (indent : Option Nat) (level : Nat) (item : Value)
    (done : (dump indent level item).completed = true) : loads (dump indent level item).text = some item := by
  have read := value_dump indent level ((dump indent level item).text.length + 1) item done (Nat.le_succ _) [] [] rfl
    (fun _ member => by cases member)
  rw [List.nil_append, List.append_nil] at read
  rw [loads, read]
  rfl

theorem null_valid : isLiteral "null".toList = true := by decide

def null : Value := .literal ⟨"null".toList, null_valid⟩

-- The value the encoder would have written in full, had it not raised an exception.
mutual

def repair : Value → Value
  | .literal literal => .literal literal
  | .str text => .str text
  | .list items => .list (repairItems items)
  | .dict members => .dict (repairMembers members)
  | .foreign => null

def repairItems : List Value → List Value
  | [] => []
  | item :: items => repair item :: repairItems items

def repairMembers : List (Text × Value) → List (Text × Value)
  | [] => []
  | (key, item) :: members => (key, repair item) :: repairMembers members

end

structure Interrupted (written whole : Written) : Prop where
  completed : whole.completed = true
  start : written = whole ∨ written.completed = false ∧ ∃ rest, rest ≠ [] ∧ whole.text = written.text ++ rest

theorem interrupted_write (text : Text) : Interrupted (write text) (write text) := ⟨rfl, .inl rfl⟩

theorem interrupted_then (first second wholeFirst wholeSecond : Written) (one : Interrupted first wholeFirst)
    (two : Interrupted second wholeSecond) : Interrupted (andThen first second) (andThen wholeFirst wholeSecond) where
  completed := by rw [and_then_completed, one.completed, two.completed]; rfl
  start := by
    rcases one.start with rfl | ⟨stopped, rest, left, text⟩
    · rcases two.start with rfl | ⟨stopped, rest, left, text⟩
      · exact .inl rfl
      · refine .inr ⟨by rw [and_then_completed, stopped, Bool.and_false], rest, left, ?_⟩
        rw [and_then_text _ _ one.completed, and_then_text _ _ one.completed, text, List.append_assoc]
    · refine .inr ⟨by rw [and_then_completed, stopped, Bool.false_and], rest ++ wholeSecond.text, by simp [left], ?_⟩
      rw [and_then_text _ _ one.completed, text, andThen, if_neg (by simp [stopped]), List.append_assoc]

theorem interrupted_more (indent : Option Nat) (level : Nat) (pieces whole : List Written)
    (each : List.Forall₂ Interrupted pieces whole) :
    Interrupted (dumpMore indent level pieces) (dumpMore indent level whole) := by
  induction each with
  | nil => exact interrupted_write []
  | cons first others ih =>
      exact interrupted_then _ _ _ _ (interrupted_write _) (interrupted_then _ _ _ _ first ih)

theorem interrupted_enclosed (indent : Option Nat) (level : Nat) (opening closing : Char) (pieces whole : List Written)
    (each : List.Forall₂ Interrupted pieces whole) :
    Interrupted (enclosed indent level opening closing pieces) (enclosed indent level opening closing whole) := by
  cases each with
  | nil => exact interrupted_write [opening, closing]
  | cons first others =>
      have more := interrupted_more indent (level + 1) _ _ others
      exact interrupted_then _ _ _ _ (interrupted_write _) (interrupted_then _ _ _ _ first
        (interrupted_then _ _ _ _ more (interrupted_write _)))

mutual

theorem dump_repair (indent : Option Nat) (level : Nat) (item : Value) :
    Interrupted (dump indent level item) (dump indent level (repair item)) := by
  cases item with
  | literal literal => exact interrupted_write literal.text
  | str text => exact interrupted_write (quoted text)
  | list items => exact interrupted_enclosed indent level '[' ']' _ _ (items_repair indent (level + 1) items)
  | dict members => exact interrupted_enclosed indent level '{' '}' _ _ (members_repair indent (level + 1) members)
  | foreign => exact ⟨rfl, .inr ⟨rfl, "null".toList, by decide, rfl⟩⟩

theorem items_repair (indent : Option Nat) (level : Nat) (items : List Value) :
    List.Forall₂ Interrupted (dumpItems indent level items) (dumpItems indent level (repairItems items)) := by
  cases items with
  | nil => exact .nil
  | cons item items => exact .cons (dump_repair indent level item) (items_repair indent level items)

theorem members_repair (indent : Option Nat) (level : Nat) (members : List (Text × Value)) :
    List.Forall₂ Interrupted (dumpMembers indent level members)
      (dumpMembers indent level (repairMembers members)) := by
  cases members with
  | nil => exact .nil
  | cons entry members =>
      exact .cons (interrupted_then _ _ _ _ (interrupted_write _) (dump_repair indent level entry.2))
        (members_repair indent level members)

end

theorem dict_append (depth bound : Nat) (enough : depth ≤ bound) (tail more : Text) (item : Value) (rest : Text)
    (found : value (depth + 1) ('{' :: tail) = some (item, rest)) :
    value (bound + 1) ('{' :: (tail ++ more)) = some (item, rest ++ more) := by
  have opening : ∀ tail, skipSpace ('{' :: tail) = '{' :: tail := fun tail => skip_space_head '{' tail (by decide)
  rw [value_start depth _ _ _ (opening tail), if_neg (by decide), if_neg (by decide), if_pos rfl] at found
  obtain ⟨members, read, same⟩ := Option.map_eq_some_iff.mp found
  cases same
  have longer := separated_append more '}' _ _ (member_append more _ _ (value_append more depth bound enough)) tail
    members.1 members.2 read
  rw [value_start bound _ _ _ (opening _), if_neg (by decide), if_neg (by decide), if_pos rfl, longer, Option.map_some]

-- An object is closed by its last character, so no shorter text of it is one.
theorem loads_proper_prefix (indent : Option Nat) (level : Nat) (members : List (Text × Value)) (start more : Text)
    (done : (dump indent level (.dict members)).completed = true)
    (text : (dump indent level (.dict members)).text = start ++ more) (left : more ≠ []) : loads start = none := by
  have whole := value_dump indent level ((start ++ more).length + 1) (.dict members) done (by rw [text]; omega) [] [] rfl
    (fun _ member => by cases member)
  rw [List.nil_append, List.append_nil, text] at whole
  obtain ⟨body, opens⟩ := enclosed_start indent level '{' '}' (dumpMembers indent (level + 1) members)
  cases start with
  | nil => rfl
  | cons head tail =>
      have brace : head = '{' := by
        rw [dump, opens, List.cons_append] at text
        exact (List.cons.inj text).1.symm
      subst brace
      rw [loads, Option.bind_eq_none_iff]
      intro read found
      have shorter : ('{' :: tail).length ≤ ('{' :: tail ++ more).length := by simp
      have longer := dict_append _ _ shorter tail more read.1 read.2 found
      have ended : read.2 ++ more = [] := (Prod.mk.inj (Option.some.inj (longer.symm.trans whole))).2
      exact absurd (List.append_eq_nil_iff.mp ended).2 left

theorem loads_cut (indent : Option Nat) (level : Nat) (members : List (Text × Value)) (cut : Nat) :
    loads ((dump indent level (.dict members)).text.take cut) =
      if (dump indent level (.dict members)).completed = true ∧ (dump indent level (.dict members)).text.length ≤ cut then
        some (.dict members)
      else none := by
  have interrupted := dump_repair indent level (.dict members)
  split
  case isTrue whole => rw [List.take_of_length_le whole.2, loads_dump indent level _ whole.1]
  case isFalse partly =>
    generalize written : dump indent level (.dict members) = output at *
    have text := List.take_append_drop cut output.text
    rcases interrupted.start with same | ⟨_, rest, left, longer⟩
    · have short : cut < output.text.length := by
        by_contra long
        exact partly ⟨by rw [same]; exact interrupted.completed, Nat.not_lt.mp long⟩
      refine loads_proper_prefix indent level _ _ (output.text.drop cut) interrupted.completed ?_ ?_
      · rw [text, same]
        rfl
      · exact List.ne_nil_of_length_pos (by rw [List.length_drop]; omega)
    · refine loads_proper_prefix indent level _ _ (output.text.drop cut ++ rest) interrupted.completed ?_ (by simp [left])
      rw [← List.append_assoc, text]
      exact longer

mutual

def encodable : Value → Bool
  | .literal _ => true
  | .str _ => true
  | .list items => encodableItems items
  | .dict members => encodableMembers members
  | .foreign => false

def encodableItems : List Value → Bool
  | [] => true
  | item :: items => encodable item && encodableItems items

def encodableMembers : List (Text × Value) → Bool
  | [] => true
  | (_, item) :: members => encodable item && encodableMembers members

end

theorem encodable_items_all (items : List Value) : encodableItems items = items.all encodable := by
  induction items with
  | nil => rfl
  | cons item items ih => rw [encodableItems, ih, List.all_cons]

theorem encodable_members_all (members : List (Text × Value)) :
    encodableMembers members = members.all fun entry => encodable entry.2 := by
  induction members with
  | nil => rfl
  | cons entry members ih => rw [encodableMembers, ih, List.all_cons]

mutual

theorem encodable_sorted (item : Value) : encodable (sortKeys item) = encodable item := by
  cases item with
  | literal literal => rfl
  | str text => rfl
  | list items => rw [sortKeys, encodable, encodable, items_sorted items]
  | dict members =>
      have perm := List.mergeSort_perm (sortMembers members) fun one other => keyLe one.1 other.1
      rw [sortKeys, encodable, encodable, encodable_members_all, perm.all_eq, ← encodable_members_all,
        members_sorted members]
  | foreign => rfl

theorem items_sorted (items : List Value) : encodableItems (sortItems items) = encodableItems items := by
  cases items with
  | nil => rfl
  | cons item items => rw [sortItems, encodableItems, encodableItems, encodable_sorted item, items_sorted items]

theorem members_sorted (members : List (Text × Value)) :
    encodableMembers (sortMembers members) = encodableMembers members := by
  cases members with
  | nil => rfl
  | cons entry members =>
      rw [sortMembers, encodableMembers, encodableMembers, encodable_sorted entry.2, members_sorted members]

end

theorem dump_more_all (indent : Option Nat) (level : Nat) (pieces : List Written) :
    (dumpMore indent level pieces).completed = pieces.all Written.completed := by
  induction pieces with
  | nil => rfl
  | cons piece pieces ih =>
      rw [dumpMore, and_then_completed, and_then_completed, ih, List.all_cons]
      rfl

theorem enclosed_all (indent : Option Nat) (level : Nat) (opening closing : Char) (pieces : List Written) :
    (enclosed indent level opening closing pieces).completed = pieces.all Written.completed := by
  cases pieces with
  | nil => rfl
  | cons piece pieces =>
      rw [enclosed, and_then_completed, and_then_completed, and_then_completed, dump_more_all, List.all_cons, write,
        write, Bool.and_true, Bool.true_and]

mutual

theorem dump_completed (indent : Option Nat) (level : Nat) (item : Value) :
    (dump indent level item).completed = encodable item := by
  cases item with
  | literal literal => rfl
  | str text => rfl
  | list items => rw [dump, enclosed_all, encodable, items_completed indent (level + 1) items]
  | dict members => rw [dump, enclosed_all, encodable, members_completed indent (level + 1) members]
  | foreign => rfl

theorem items_completed (indent : Option Nat) (level : Nat) (items : List Value) :
    (dumpItems indent level items).all Written.completed = encodableItems items := by
  cases items with
  | nil => rfl
  | cons item items =>
      rw [dumpItems, List.all_cons, encodableItems, dump_completed indent level item, items_completed indent level items]

theorem members_completed (indent : Option Nat) (level : Nat) (members : List (Text × Value)) :
    (dumpMembers indent level members).all Written.completed = encodableMembers members := by
  cases members with
  | nil => rfl
  | cons entry members =>
      rw [dumpMembers, List.all_cons, encodableMembers, and_then_completed, dump_completed indent level entry.2,
        members_completed indent level members]
      rfl

end

section Elements

variable {Element : Type} (Good : Element → Prop) (closing : Char) (read : Text → Option (Element × Text))
  (good : ∀ input element rest, read input = some (element, rest) → Good element)

include good

theorem more_elements (fuel : Nat) (input : Text) (elements : List Element) (rest : Text)
    (found : moreOf closing read fuel input = some (elements, rest)) : ∀ element ∈ elements, Good element := by
  induction fuel generalizing input elements with
  | zero => cases found
  | succ fuel ih =>
      rcases more_cases closing read fuel input elements rest found with
        ⟨_, rfl⟩ | ⟨tail, first, others, _, _, reads, goesOn, rfl⟩
      · simp
      · exact List.forall_mem_cons.mpr ⟨good tail first.1 first.2 reads, ih first.2 others goesOn⟩

theorem separated_elements (input : Text) (elements : List Element) (rest : Text)
    (found : separated closing read input = some (elements, rest)) : ∀ element ∈ elements, Good element := by
  rcases separated_cases closing read input elements rest found with
    ⟨_, rfl⟩ | ⟨head, tail, first, others, _, _, reads, goesOn, rfl⟩
  · simp
  · exact List.forall_mem_cons.mpr ⟨good _ first.1 first.2 reads,
      more_elements Good closing read good _ first.2 others rest goesOn⟩

end Elements

theorem value_encodable (depth : Nat) (input : Text) (item : Value) (rest : Text)
    (found : value depth input = some (item, rest)) : encodable item = true := by
  induction depth generalizing input item rest with
  | zero => cases found
  | succ depth ih =>
      cases start : skipSpace input with
      | nil => simp [value, start] at found
      | cons head tail =>
          rw [value_start depth input head tail start] at found
          split_ifs at found
          · obtain ⟨text, _, same⟩ := Option.map_eq_some_iff.mp found
            cases same
            rfl
          · obtain ⟨items, read, same⟩ := Option.map_eq_some_iff.mp found
            cases same
            rw [encodable, encodable_items_all, List.all_eq_true]
            exact separated_elements (fun item => encodable item = true) ']' (value depth) ih tail items.1 _ read
          · obtain ⟨members, read, same⟩ := Option.map_eq_some_iff.mp found
            cases same
            rw [encodable, encodable_members_all, List.all_eq_true]
            refine separated_elements (fun entry => encodable entry.2 = true) '}' (member (value depth)) ?_ tail members.1 _
              read
            intro input entry rest found
            obtain ⟨_, _, after, _, _, _, read⟩ := member_cases (value depth) input entry rest found
            exact ih after entry.2 rest read
          · rw [readLiteral] at found
            split at found
            · cases found
              rfl
            · cases found

theorem loads_encodable (input : Text) (item : Value) (found : loads input = some item) : encodable item = true := by
  rw [loads, Option.bind_eq_some_iff] at found
  obtain ⟨read, reads, found⟩ := found
  split at found
  · cases found
    exact value_encodable _ input read.1 read.2 reads
  · cases found

end AppFit.JsonText
