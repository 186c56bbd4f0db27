import AppFit.Lib.Bytes
import Mathlib.Data.List.Infix

/- awk -v assignments and the sub function, line by line. Escapes are those of
   gawk's assignments and its default reading of a replacement text; a pattern is
   a literal. -/
set_option autoImplicit false

namespace AppFit.Awk

open AppFit.Scan AppFit.Encoding

def escapeLetter (letter : UInt8) : UInt8 :=
  if letter = byte 'a' then 7
  else if letter = byte 'b' then 8
  else if letter = byte 'f' then 12
  else if letter = byte 'n' then 10
  else if letter = byte 'r' then 13
  else if letter = byte 't' then 9
  else if letter = byte 'v' then 11
  else letter

-- A backslash at the end stays; before a line break both go. A letter without a
-- meaning, the quote and the backslash stand for themselves.
def escape : Bytes → Bytes × Bytes
  | [] => ([backslash], [])
  | letter :: rest =>
      if letter = newline then ([], rest)
      else if isOctal letter then
        let digits := letter :: (rest.take 2).takeWhile isOctal
        ([UInt8.ofNat (numeral 8 digits)], rest.drop (digits.length - 1))
      else if letter = byte 'x' then
        let digits := (rest.take 2).takeWhile isHex
        if digits = [] then ([letter], rest) else ([UInt8.ofNat (numeral 16 digits)], rest.drop digits.length)
      else ([escapeLetter letter], rest)

theorem escape_length (input : Bytes) : (escape input).2.length ≤ input.length := by
  cases input with
  | nil => exact Nat.le_refl _
  | cons letter rest =>
      simp only [escape]
      split
      · exact Nat.le_succ _
      · split
        · simp only [List.length_drop, List.length_cons]
          omega
        · split
          · split
            · exact Nat.le_succ _
            · simp only [List.length_drop, List.length_cons]
              omega
          · exact Nat.le_succ _

-- The value of a variable set with -v.
def assigned : Scanner UInt8 where
  next head tail := if head = backslash then escape tail else ([head], tail)
  shrinks head tail := by
    split
    · exact escape_length tail
    · exact Nat.le_refl _

-- The replacement text of sub for one match.
def replacement (matched : Bytes) : Scanner UInt8 where
  next head tail :=
    if head = ampersand then (matched, tail)
    else if head = backslash then
      if tail.take 3 = [backslash, backslash, ampersand] then ([backslash, ampersand], tail.drop 3)
      else if tail.take 2 = [backslash, ampersand] then (backslash :: matched, tail.drop 2)
      else if tail.take 1 = [ampersand] then ([ampersand], tail.drop 1)
      else ([head], tail)
    else ([head], tail)
  shrinks head tail := by
    have dropped (count : Nat) : (tail.drop count).length ≤ tail.length := by
      rw [List.length_drop]
      exact Nat.sub_le _ _
    split
    · exact Nat.le_refl _
    · split
      · split
        · exact dropped 3
        · split
          · exact dropped 2
          · split
            · exact dropped 1
            · exact Nat.le_refl _
      · exact Nat.le_refl _

def replaceFirst (pattern text : Bytes) : Bytes → Bytes
  | [] => []
  | head :: tail =>
      if pattern.isPrefixOf (head :: tail) then text ++ (head :: tail).drop pattern.length
      else head :: replaceFirst pattern text tail

def sub (pattern value line : Bytes) : Bytes := replaceFirst pattern ((replacement pattern).run value) line

def records : Bytes → List Bytes
  | [] => [[]]
  | head :: tail =>
      if head = newline then [] :: records tail
      else
        match records tail with
        | [] => [[head]]
        | line :: lines => (head :: line) :: lines

-- awk -v VAR=text '{ sub(/pattern/, VAR); print; }' on a file of such lines; a
-- line break in the value makes lines of its own in the output.
def substitute (pattern text : Bytes) (lines : List Bytes) : List Bytes :=
  lines.flatMap fun line => records (sub pattern (assigned.run text) line)

theorem octal_alnum (digit : UInt8) (octal : isOctal digit = true) : isAlnum digit = true := by
  simp only [isOctal, isAlnum, Bool.and_eq_true, Bool.or_eq_true, decide_eq_true_eq, UInt8.le_iff_toNat_le] at octal ⊢
  exact .inl (.inl ⟨octal.1, Nat.le_trans octal.2 (by decide)⟩)

theorem escape_letter_weight (weights : Weights) (letter : UInt8) :
    weights.weigh (escapeLetter letter) < weights.weigh backslash + weights.weigh letter := by
  have named (value : UInt8) (meant : isAlnum letter = true) :
      weights.weigh value < weights.weigh backslash + weights.weigh letter := by
    have bound := weights.top value
    have positive := weights.alnum letter meant
    omega
  have positive := weights_backslash weights
  rw [escapeLetter]
  split_ifs with a b f n r t v
  · exact named 7 (by rw [a]; decide)
  · exact named 8 (by rw [b]; decide)
  · exact named 12 (by rw [f]; decide)
  · exact named 10 (by rw [n]; decide)
  · exact named 13 (by rw [r]; decide)
  · exact named 9 (by rw [t]; decide)
  · exact named 11 (by rw [v]; decide)
  · omega

theorem escape_weight (weights : Weights) (letter : UInt8) (rest : Bytes) :
    weight weights.weigh (escape (letter :: rest)).1 + weight weights.weigh (escape (letter :: rest)).2 <
      weights.weigh backslash + weight weights.weigh (letter :: rest) := by
  have positive := weights_backslash weights
  have shorter (count : Nat) := weight_drop_le weights count rest
  rw [weight_cons]
  simp only [escape]
  split_ifs with lineBreak octal hex none
  · simp only [weight_nil]
    omega
  · have digit := weights.alnum letter (octal_alnum letter octal)
    have value := weights.top (UInt8.ofNat (numeral 8 (letter :: (rest.take 2).takeWhile isOctal)))
    have left := shorter ((letter :: (rest.take 2).takeWhile isOctal).length - 1)
    simp only [weight_cons, weight_nil]
    omega
  · simp only [weight_cons, weight_nil]
    omega
  · have digit := weights.alnum letter (by rw [hex]; decide)
    have value := weights.top (UInt8.ofNat (numeral 16 ((rest.take 2).takeWhile isHex)))
    have left := shorter ((rest.take 2).takeWhile isHex).length
    simp only [weight_cons, weight_nil]
    omega
  · have less := escape_letter_weight weights letter
    simp only [weight_cons, weight_nil]
    omega

theorem assigned_weight (weights : Weights) (input : Bytes) :
    weight weights.weigh (assigned.run input) < weight weights.weigh input ∨ assigned.run input = input := by
  have runs := run_weight_or_same assigned weights.weigh (fun _ => True) ?_ input
  · exact runs.imp id And.left
  · intro head tail
    by_cases escapes : head = backslash
    · subst escapes
      cases tail with
      | nil => exact .inr ⟨rfl, trivial⟩
      | cons letter rest =>
          apply Or.inl
          rw [weight_cons]
          exact escape_weight weights letter rest
    · exact .inr ⟨if_neg escapes, trivial⟩

theorem assigned_plain (input : Bytes) (plain : backslash ∉ input) : assigned.run input = input := by
  apply run_copies
  intro head member tail
  have ordinary : head ≠ backslash := fun same => plain (same ▸ member)
  exact if_neg ordinary

theorem replacement_weight (weights : Weights) (matched : Bytes)
    (light : weight weights.weigh matched < weights.weigh ampersand) (input : Bytes) :
    weight weights.weigh ((replacement matched).run input) < weight weights.weigh input ∨
      (replacement matched).run input = input ∧ ampersand ∉ input := by
  have positive := weights_backslash weights
  have runs := run_weight_or_same (replacement matched) weights.weigh (· ≠ ampersand) ?_ input
  · exact runs.imp id fun same => ⟨same.1, fun member => same.2 ampersand member rfl⟩
  · intro head tail
    have split (count : Nat) := weight_append weights.weigh (tail.take count) (tail.drop count)
    simp only [List.take_append_drop] at split
    simp only [replacement]
    split_ifs with amp escapes three two one
    · apply Or.inl
      simp only [weight_cons, amp]
      omega
    · have all := split 3
      rw [three] at all
      apply Or.inl
      simp only [weight_cons, weight_nil] at all ⊢
      rw [escapes]
      omega
    · have all := split 2
      rw [two] at all
      apply Or.inl
      simp only [weight_cons, weight_nil] at all ⊢
      rw [escapes]
      omega
    · have all := split 1
      rw [one] at all
      apply Or.inl
      simp only [weight_cons, weight_nil] at all ⊢
      rw [escapes]
      omega
    · exact .inr ⟨rfl, amp⟩
    · exact .inr ⟨rfl, amp⟩

theorem replacement_plain (matched input : Bytes) (noEscape : backslash ∉ input) (noAmpersand : ampersand ∉ input) :
    (replacement matched).run input = input := by
  apply run_copies
  intro head member tail
  have other : head ≠ ampersand := fun same => noAmpersand (same ▸ member)
  have ordinary : head ≠ backslash := fun same => noEscape (same ▸ member)
  simp only [replacement, if_neg other, if_neg ordinary]

-- Without an ampersand a backslash has nothing to quote.
theorem replacement_copies (matched input : Bytes) (absent : ampersand ∉ input) :
    (replacement matched).run input = input := by
  induction input with
  | nil => rfl
  | cons head tail ih =>
      have other : head ≠ ampersand := fun same => absent (same ▸ List.mem_cons_self)
      have free : ampersand ∉ tail := fun member => absent (List.mem_cons_of_mem _ member)
      have quoted (count : Nat) (front : Bytes) (last : ampersand ∈ front) : tail.take count ≠ front :=
        fun same => free (List.mem_of_mem_take (same ▸ last))
      have step : (replacement matched).next head tail = ([head], tail) := by
        simp only [replacement, if_neg other, if_neg (quoted 3 [backslash, backslash, ampersand] (by simp)),
          if_neg (quoted 2 [backslash, ampersand] (by simp)), if_neg (quoted 1 [ampersand] (by simp)), ite_self]
      rw [run_cons, step, ih free]
      rfl

theorem records_single (line : Bytes) (single : newline ∉ line) : records line = [line] := by
  induction line with
  | nil => rfl
  | cons head tail ih =>
      have here : head ≠ newline := fun same => single (same ▸ List.mem_cons_self)
      rw [records, if_neg here, ih fun member => single (List.mem_cons_of_mem _ member)]

theorem prefix_split (pattern input : Bytes) (found : pattern.isPrefixOf input = true) :
    input = pattern ++ input.drop pattern.length :=
  (List.prefix_iff_eq_append.mp (List.isPrefixOf_iff_prefix.mp found)).symm

theorem replace_first_cases (pattern text input : Bytes) (nonempty : pattern ≠ []) :
    (∃ before after, input = before ++ pattern ++ after ∧
        replaceFirst pattern text input = before ++ text ++ after) ∨
      replaceFirst pattern text input = input ∧ ¬ pattern <:+: input := by
  induction input with
  | nil => exact .inr ⟨rfl, fun occurs => nonempty (List.infix_nil.mp occurs)⟩
  | cons head tail ih =>
      by_cases found : pattern.isPrefixOf (head :: tail) = true
      · refine .inl ⟨[], (head :: tail).drop pattern.length, ?_, ?_⟩
        · exact prefix_split pattern (head :: tail) found
        · rw [replaceFirst, if_pos found]
          rfl
      · rw [replaceFirst, if_neg found]
        rcases ih with ⟨before, after, split, replaced⟩ | ⟨same, absent⟩
        · exact .inl ⟨head :: before, after, congrArg (head :: ·) split, congrArg (head :: ·) replaced⟩
        · refine .inr ⟨congrArg (head :: ·) same, ?_⟩
          intro occurs
          rcases List.infix_cons_iff.mp occurs with first | later
          · exact found (List.isPrefixOf_iff_prefix.mpr first)
          · exact absent later

theorem absent_of_tails (pattern line : Bytes) (nowhere : line.tails.any (pattern.isPrefixOf ·) = false) :
    ¬ pattern <:+: line := by
  intro occurs
  obtain ⟨suffix, starts, ends⟩ := List.infix_iff_prefix_suffix.mp occurs
  have found : line.tails.any (pattern.isPrefixOf ·) = true :=
    List.any_eq_true.mpr ⟨suffix, (List.mem_tails suffix line).mpr ends, List.isPrefixOf_iff_prefix.mpr starts⟩
  rw [nowhere] at found
  cases found

theorem replace_first_inside (pattern text before after : Bytes) (nonempty : pattern ≠ [])
    (occurs : pattern <:+: before) :
    replaceFirst pattern text (before ++ after) = replaceFirst pattern text before ++ after := by
  induction before with
  | nil => exact absurd (List.infix_nil.mp occurs) nonempty
  | cons head tail ih =>
      have fits := occurs.length_le
      have same : pattern.isPrefixOf (head :: (tail ++ after)) = true ↔ pattern.isPrefixOf (head :: tail) = true := by
        rw [List.isPrefixOf_iff_prefix, List.isPrefixOf_iff_prefix]
        refine ⟨?_, fun here => List.prefix_append_of_prefix here⟩
        intro crossing
        exact List.prefix_of_prefix_length_le crossing (List.prefix_append (head :: tail) after) fits
      rw [List.cons_append, replaceFirst, replaceFirst]
      by_cases found : pattern.isPrefixOf (head :: tail) = true
      · rw [if_pos found, if_pos (same.mpr found), List.append_assoc,
          ← List.cons_append, List.drop_append_of_le_length fits]
      · rw [if_neg found, if_neg fun crossing => found (same.mp crossing)]
        rcases List.infix_cons_iff.mp occurs with first | later
        · exact absurd (List.isPrefixOf_iff_prefix.mpr first) found
        · rw [ih later]
          rfl

theorem replace_first_here (pattern text rest : Bytes) (nonempty : pattern ≠ []) :
    replaceFirst pattern text (pattern ++ rest) = text ++ rest := by
  have found : pattern.isPrefixOf (pattern ++ rest) = true := List.isPrefixOf_iff_prefix.mpr (List.prefix_append _ _)
  cases pattern with
  | nil => exact absurd rfl nonempty
  | cons head tail =>
      rw [List.cons_append] at found ⊢
      rw [replaceFirst, if_pos found, ← List.cons_append, List.drop_left]

-- A match cannot run across a byte that the pattern does not contain.
theorem replace_first_skip (pattern text before after : Bytes) (stop : UInt8) (nonempty : pattern ≠ [])
    (barrier : stop ∉ pattern) (absent : ¬ pattern <:+: before) :
    replaceFirst pattern text (before ++ stop :: after) = before ++ stop :: replaceFirst pattern text after := by
  induction before with
  | nil =>
      have notHere : ¬ pattern.isPrefixOf (stop :: after) = true := by
        intro found
        obtain ⟨rest, same⟩ := List.isPrefixOf_iff_prefix.mp found
        cases pattern with
        | nil => exact nonempty rfl
        | cons head tail => exact barrier ((List.cons.inj same).1 ▸ List.mem_cons_self)
      rw [List.nil_append, replaceFirst, if_neg notHere]
      rfl
  | cons head tail ih =>
      have notHere : ¬ pattern.isPrefixOf (head :: tail ++ stop :: after) = true := by
        intro found
        have crossing := List.isPrefixOf_iff_prefix.mp found
        rcases Nat.lt_or_ge (head :: tail).length pattern.length with longer | shorter
        · have upTo : head :: tail ++ [stop] <+: head :: tail ++ stop :: after := ⟨after, by simp⟩
          have inside := List.prefix_of_prefix_length_le upTo crossing (by
            rw [List.length_append, List.length_singleton]
            exact longer)
          exact barrier (inside.subset (by simp))
        · exact absent (List.prefix_of_prefix_length_le crossing (List.prefix_append _ _) shorter).isInfix
      rw [List.cons_append] at notHere ⊢
      rw [replaceFirst, if_neg notHere, ih fun later => absent (List.infix_cons later)]
      rfl

theorem mem_replace_first (pattern text input : Bytes) (item : UInt8) (nonempty : pattern ≠ [])
    (member : item ∈ replaceFirst pattern text input) : item ∈ text ∨ item ∈ input := by
  rcases replace_first_cases pattern text input nonempty with ⟨before, after, split, replaced⟩ | ⟨same, _⟩
  · rw [replaced] at member
    rw [split]
    simp only [List.mem_append] at member ⊢
    tauto
  · rw [same] at member
    exact .inr member

theorem mem_replacement (matched input : Bytes) (item : UInt8) (foreign : item ∉ matched) (notEscape : item ≠ backslash)
    (notAmpersand : item ≠ ampersand) (absent : item ∉ input) : item ∉ (replacement matched).run input := by
  intro member
  refine run_all (replacement matched) (· ≠ item) ?_ input (fun other inside same => absent (same ▸ inside)) item member rfl
  intro head tail all
  have first : head ≠ item := all head List.mem_cons_self
  have later (count : Nat) : ∀ other ∈ tail.drop count, other ≠ item :=
    fun other inside => all other (List.mem_cons_of_mem _ (List.mem_of_mem_drop inside))
  have inMatched : ∀ other ∈ matched, other ≠ item := fun other inside same => foreign (same ▸ inside)
  simp only [replacement]
  split_ifs
  · exact ⟨inMatched, later 0⟩
  · exact ⟨by simp [notEscape.symm, notAmpersand.symm], later 3⟩
  · exact ⟨by simpa [notEscape.symm] using inMatched, later 2⟩
  · exact ⟨by simp [notAmpersand.symm], later 1⟩
  · exact ⟨by simpa using first, later 0⟩
  · exact ⟨by simpa using first, later 0⟩

end AppFit.Awk
