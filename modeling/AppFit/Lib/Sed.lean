import AppFit.Lib.Awk

/- Files as the lines that are printed, and sed with one literal pattern on what
   awk has printed. A value that was put in may hold line breaks, so one line of
   the template can be several for sed. -/
set_option autoImplicit false

namespace AppFit.Sed

open AppFit.Scan AppFit.Encoding AppFit.Awk

def printed (lines : List Bytes) : Bytes := lines.flatMap (· ++ [newline])

-- sed s/pattern/text/ with a text that has neither & nor a backslash.
def sed (pattern text : Bytes) (lines : List Bytes) : List Bytes := lines.map (replaceFirst pattern text)

def edited (pattern text line : Bytes) : Bytes := printed (sed pattern text (records line))

theorem printed_cons (line : Bytes) (lines : List Bytes) : printed (line :: lines) = line ++ newline :: printed lines := by
  rw [printed, List.flatMap_cons, List.append_assoc]
  rfl

theorem printed_append (first second : List Bytes) : printed (first ++ second) = printed first ++ printed second :=
  List.flatMap_append

theorem records_cons (head : UInt8) (tail first : Bytes) (rest : List Bytes) (ordinary : head ≠ newline)
    (later : records tail = first :: rest) : records (head :: tail) = (head :: first) :: rest := by
  rw [records, if_neg ordinary, later]

theorem records_first (line : Bytes) : ∃ first rest, records line = first :: rest ∧ first <+: line := by
  induction line with
  | nil => exact ⟨[], [], rfl, List.nil_prefix⟩
  | cons head tail ih =>
      obtain ⟨first, rest, later, starts⟩ := ih
      by_cases lineBreak : head = newline
      · rw [records, if_pos lineBreak]
        exact ⟨[], records tail, rfl, List.nil_prefix⟩
      · exact ⟨head :: first, rest, records_cons head tail first rest lineBreak later, List.cons_prefix_cons.mpr ⟨rfl, starts⟩⟩

theorem printed_records (line : Bytes) : printed (records line) = line ++ [newline] := by
  induction line with
  | nil => rfl
  | cons head tail ih =>
      by_cases lineBreak : head = newline
      · rw [records, if_pos lineBreak, printed_cons, ih, lineBreak, List.nil_append, List.cons_append]
      · obtain ⟨first, rest, later, _⟩ := records_first tail
        rw [later, printed_cons] at ih
        rw [records_cons head tail first rest lineBreak later, printed_cons, List.cons_append, ih, List.cons_append]

theorem record_inside (line record : Bytes) (member : record ∈ records line) : record <:+: line := by
  induction line generalizing record with
  | nil => rw [List.mem_singleton.mp member]
  | cons head tail ih =>
      by_cases lineBreak : head = newline
      · rw [records, if_pos lineBreak] at member
        rcases List.mem_cons.mp member with rfl | later
        · exact List.nil_infix
        · exact List.infix_cons (ih record later)
      · obtain ⟨first, rest, later, starts⟩ := records_first tail
        rw [records_cons head tail first rest lineBreak later] at member
        rcases List.mem_cons.mp member with rfl | inRest
        · exact (List.cons_prefix_cons.mpr ⟨rfl, starts⟩).isInfix
        · exact List.infix_cons (ih record (later ▸ List.mem_cons_of_mem first inRest))

-- What has no line break in it does not run across two records.
theorem prefix_of_record (line start : Bytes) (single : newline ∉ start) (starts : start <+: line) :
    ∃ first rest, records line = first :: rest ∧ start <+: first := by
  induction line generalizing start with
  | nil => exact ⟨[], [], rfl, starts⟩
  | cons head tail ih =>
      cases start with
      | nil =>
          obtain ⟨first, rest, same, _⟩ := records_first (head :: tail)
          exact ⟨first, rest, same, List.nil_prefix⟩
      | cons letter letters =>
          obtain ⟨rfl, shorter⟩ := List.cons_prefix_cons.mp starts
          have ordinary : letter ≠ newline := fun same => single (same ▸ List.mem_cons_self)
          obtain ⟨first, rest, later, inside⟩ :=
            ih letters (fun member => single (List.mem_cons_of_mem _ member)) shorter
          exact ⟨letter :: first, rest, records_cons letter tail first rest ordinary later,
            List.cons_prefix_cons.mpr ⟨rfl, inside⟩⟩

theorem record_containing (line pattern : Bytes) (nonempty : pattern ≠ []) (single : newline ∉ pattern)
    (occurs : pattern <:+: line) : ∃ record ∈ records line, pattern <:+: record := by
  induction line with
  | nil => exact absurd (List.infix_nil.mp occurs) nonempty
  | cons head tail ih =>
      rcases List.infix_cons_iff.mp occurs with here | later
      · obtain ⟨first, rest, same, inside⟩ := prefix_of_record (head :: tail) pattern single here
        exact ⟨first, same ▸ List.mem_cons_self, inside.isInfix⟩
      · obtain ⟨record, member, inside⟩ := ih later
        by_cases lineBreak : head = newline
        · rw [records, if_pos lineBreak]
          exact ⟨record, List.mem_cons_of_mem _ member, inside⟩
        · obtain ⟨first, rest, same, _⟩ := records_first tail
          rw [records_cons head tail first rest lineBreak same]
          rw [same] at member
          rcases List.mem_cons.mp member with rfl | inRest
          · exact ⟨head :: record, List.mem_cons_self, List.infix_cons inside⟩
          · exact ⟨record, List.mem_cons_of_mem _ inRest, inside⟩

theorem replace_first_absent (pattern text input : Bytes) (nonempty : pattern ≠ []) (absent : ¬ pattern <:+: input) :
    replaceFirst pattern text input = input := by
  rcases replace_first_cases pattern text input nonempty with ⟨before, after, split, _⟩ | ⟨same, _⟩
  · exact absurd ⟨before, after, split.symm⟩ absent
  · exact same

-- The placeholder of a template is the first match of its line.
theorem replace_first_at (pattern text before after : Bytes) (nonempty : pattern ≠ [])
    (absent : ¬ pattern <:+: before ++ pattern.dropLast) :
    replaceFirst pattern text (before ++ (pattern ++ after)) = before ++ (text ++ after) := by
  induction before with
  | nil => exact replace_first_here pattern text after nonempty
  | cons head tail ih =>
      have notHere : ¬ pattern.isPrefixOf (head :: (tail ++ (pattern ++ after))) = true := by
        intro found
        have here := List.isPrefixOf_iff_prefix.mp found
        have upTo : head :: tail ++ pattern.dropLast <+: head :: (tail ++ (pattern ++ after)) := by
          rw [← List.cons_append, List.prefix_append_right_inj]
          exact (List.dropLast_prefix pattern).trans (List.prefix_append pattern after)
        refine absent (List.prefix_of_prefix_length_le here upTo ?_).isInfix
        rw [List.length_append, List.length_cons, List.length_dropLast]
        omega
      have later : ¬ pattern <:+: tail ++ pattern.dropLast := fun occurs => absent (List.infix_cons occurs)
      rw [List.cons_append, replaceFirst, if_neg notHere, ih later]
      rfl

theorem edited_absent (pattern text line : Bytes) (nonempty : pattern ≠ []) (absent : ¬ pattern <:+: line) :
    edited pattern text line = line ++ [newline] := by
  have same : sed pattern text (records line) = records line := by
    refine (List.map_congr_left (g := id) fun record member => ?_).trans (List.map_id _)
    exact replace_first_absent pattern text record nonempty fun occurs =>
      absent (occurs.trans (record_inside line record member))
  rw [edited, same, printed_records]

theorem edited_single (pattern text line : Bytes) (single : newline ∉ line) :
    edited pattern text line = replaceFirst pattern text line ++ [newline] := by
  rw [edited, records_single line single, sed, List.map_singleton, printed, List.flatMap_singleton]

section Weighed

variable (weigh : UInt8 → Nat) (pattern text : Bytes) (nonempty : pattern ≠ [])
  (lighter : weight weigh text < weight weigh pattern)

include nonempty lighter

theorem replace_first_weight (input : Bytes) :
    weight weigh (replaceFirst pattern text input) < weight weigh input ∨
      replaceFirst pattern text input = input ∧ ¬ pattern <:+: input := by
  rcases replace_first_cases pattern text input nonempty with ⟨before, after, split, replaced⟩ | same
  · apply Or.inl
    rw [replaced, split]
    simp only [weight_append]
    omega
  · exact .inr same

theorem sed_weight (lines : List Bytes) :
    weight weigh (printed (sed pattern text lines)) < weight weigh (printed lines) ∨
      ∀ line ∈ lines, ¬ pattern <:+: line := by
  have noHeavier (others : List Bytes) :
      weight weigh (printed (sed pattern text others)) ≤ weight weigh (printed others) := by
    induction others with
    | nil => exact Nat.le_refl _
    | cons line rest ih =>
        have here : weight weigh (replaceFirst pattern text line) ≤ weight weigh line := by
          rcases replace_first_weight weigh pattern text nonempty lighter line with less | ⟨same, _⟩
          · exact Nat.le_of_lt less
          · rw [same]
        rw [sed] at ih
        rw [sed, List.map_cons, printed_cons, printed_cons]
        simp only [weight_append, weight_cons]
        omega
  induction lines with
  | nil => exact .inr fun line member => absurd member List.not_mem_nil
  | cons line rest ih =>
      have later := noHeavier rest
      rw [sed] at ih later ⊢
      rw [List.map_cons, printed_cons, printed_cons]
      simp only [weight_append, weight_cons]
      rcases replace_first_weight weigh pattern text nonempty lighter line with less | ⟨same, absent⟩
      · apply Or.inl
        omega
      · rw [same]
        rcases ih with less | none
        · apply Or.inl
          omega
        · exact .inr (List.forall_mem_cons.mpr ⟨absent, none⟩)

theorem edited_weight (line : Bytes) (single : newline ∉ pattern) :
    weight weigh (edited pattern text line) < weight weigh (line ++ [newline]) ∨
      edited pattern text line = line ++ [newline] ∧ ¬ pattern <:+: line := by
  rcases sed_weight weigh pattern text nonempty lighter (records line) with less | none
  · rw [printed_records] at less
    exact .inl less
  · have absent : ¬ pattern <:+: line := by
      intro occurs
      obtain ⟨record, member, inside⟩ := record_containing line pattern nonempty single occurs
      exact none record member inside
    exact .inr ⟨edited_absent pattern text line nonempty absent, absent⟩

end Weighed

theorem sed_substituted (placeholder value pattern text : Bytes) (lines : List Bytes) :
    printed (sed pattern text (substitute placeholder value lines)) =
      lines.flatMap fun line => edited pattern text (sub placeholder (assigned.run value) line) := by
  induction lines with
  | nil => rfl
  | cons line rest ih =>
      rw [substitute, sed] at ih
      rw [substitute, List.flatMap_cons, sed, List.map_append, printed_append, ih]
      rfl

end AppFit.Sed
