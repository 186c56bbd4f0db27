import Mathlib.Algebra.Order.BigOperators.Group.List
import Mathlib.Algebra.Order.Ring.Nat

/- Left-to-right rewriting of a list. A scanner looks at the head of the input and
   what follows, emits some items and goes on with a shorter input; escape
   sequences are read this way. Weights compare what is written with what was read. -/
set_option autoImplicit false

namespace AppFit.Scan

variable {β : Type}

structure Scanner (β : Type) where
  next : β → List β → List β × List β
  shrinks : ∀ head tail, (next head tail).2.length ≤ tail.length

def Scanner.runFor (scanner : Scanner β) : Nat → List β → List β
  | 0, _ => []
  | _ + 1, [] => []
  | fuel + 1, head :: tail => (scanner.next head tail).1 ++ scanner.runFor fuel (scanner.next head tail).2

def Scanner.run (scanner : Scanner β) (input : List β) : List β := scanner.runFor input.length input

theorem run_for_enough (scanner : Scanner β) (fuel : Nat) (input : List β) (enough : input.length ≤ fuel) :
    scanner.runFor fuel input = scanner.run input := by
  suffices same : ∀ more, input.length ≤ more → scanner.runFor fuel input = scanner.runFor more input from
    same input.length (Nat.le_refl _)
  induction fuel generalizing input with
  | zero =>
      intro more _
      cases input with
      | nil => cases more <;> rfl
      | cons head tail => cases enough
  | succ fuel ih =>
      intro more enoughToo
      cases input with
      | nil => cases more <;> rfl
      | cons head tail =>
          cases more with
          | zero => cases enoughToo
          | succ more =>
              have shorter := scanner.shrinks head tail
              simp only [List.length_cons] at enough enoughToo
              simp only [Scanner.runFor]
              rw [ih _ (by omega) more (by omega)]

theorem run_cons (scanner : Scanner β) (head : β) (tail : List β) :
    scanner.run (head :: tail) = (scanner.next head tail).1 ++ scanner.run (scanner.next head tail).2 := by
  rw [← run_for_enough scanner tail.length _ (scanner.shrinks head tail)]
  rfl

-- The induction that follows a scanner: the hypothesis is about what is left to read.
theorem scan_induction (scanner : Scanner β) (motive : List β → Prop) (nil : motive [])
    (cons : ∀ head tail, motive (scanner.next head tail).2 → motive (head :: tail)) (input : List β) : motive input := by
  induction size : input.length using Nat.strongRecOn generalizing input with
  | _ size ih =>
      cases input with
      | nil => exact nil
      | cons head tail =>
          apply cons
          have shorter := scanner.shrinks head tail
          simp only [List.length_cons] at size
          exact ih _ (by omega) _ rfl

theorem run_copies (scanner : Scanner β) (input : List β)
    (copied : ∀ head ∈ input, ∀ tail, scanner.next head tail = ([head], tail)) : scanner.run input = input := by
  induction input with
  | nil => rfl
  | cons head tail ih =>
      rw [run_cons, copied head List.mem_cons_self tail]
      exact congrArg (head :: ·) (ih fun item member => copied item (List.mem_cons_of_mem _ member))

theorem run_all (scanner : Scanner β) (good : β → Prop)
    (kept : ∀ head tail, (∀ item ∈ head :: tail, good item) →
      (∀ item ∈ (scanner.next head tail).1, good item) ∧ ∀ item ∈ (scanner.next head tail).2, good item)
    (input : List β) (all : ∀ item ∈ input, good item) : ∀ item ∈ scanner.run input, good item := by
  induction input using scan_induction scanner with
  | nil => exact all
  | cons head tail ih =>
      obtain ⟨emitted, left⟩ := kept head tail all
      rw [run_cons]
      intro item member
      rcases List.mem_append.mp member with here | later
      · exact emitted item here
      · exact ih left item later

def weight (weigh : β → Nat) (input : List β) : Nat := (input.map weigh).sum

theorem weight_nil (weigh : β → Nat) : weight weigh [] = 0 := rfl

theorem weight_cons (weigh : β → Nat) (head : β) (tail : List β) :
    weight weigh (head :: tail) = weigh head + weight weigh tail := by
  simp [weight]

theorem weight_append (weigh : β → Nat) (first second : List β) :
    weight weigh (first ++ second) = weight weigh first + weight weigh second := by
  simp [weight]

theorem weigh_le_weight (weigh : β → Nat) (item : β) (input : List β) (member : item ∈ input) :
    weigh item ≤ weight weigh input :=
  List.le_sum_of_mem (List.mem_map_of_mem member)

theorem run_weight_le (scanner : Scanner β) (weigh : β → Nat)
    (lighter : ∀ head tail, weight weigh (scanner.next head tail).1 + weight weigh (scanner.next head tail).2 ≤
      weight weigh (head :: tail))
    (input : List β) : weight weigh (scanner.run input) ≤ weight weigh input := by
  induction input using scan_induction scanner with
  | nil => exact Nat.le_refl _
  | cons head tail ih =>
      have step := lighter head tail
      rw [run_cons, weight_append]
      omega

theorem run_weight_or_same (scanner : Scanner β) (weigh : β → Nat) (copied : β → Prop)
    (steps : ∀ head tail,
      weight weigh (scanner.next head tail).1 + weight weigh (scanner.next head tail).2 < weight weigh (head :: tail) ∨
        scanner.next head tail = ([head], tail) ∧ copied head)
    (input : List β) :
    weight weigh (scanner.run input) < weight weigh input ∨
      scanner.run input = input ∧ ∀ item ∈ input, copied item := by
  have noHeavier (rest : List β) : weight weigh (scanner.run rest) ≤ weight weigh rest := by
    apply run_weight_le
    intro head tail
    rcases steps head tail with less | ⟨same, _⟩
    · exact Nat.le_of_lt less
    · simp only [same, weight_cons, weight_nil, Nat.add_zero, Nat.le_refl]
  induction input with
  | nil => exact .inr ⟨rfl, fun item member => (by cases member)⟩
  | cons head tail ih =>
      rw [run_cons, weight_append]
      rcases steps head tail with less | ⟨same, good⟩
      · have rest := noHeavier (scanner.next head tail).2
        exact .inl (by omega)
      · rw [same]
        rcases ih with less | ⟨copy, all⟩
        · apply Or.inl
          simp only [weight_cons, weight_nil]
          omega
        · refine .inr ⟨by rw [copy]; rfl, ?_⟩
          intro item member
          rcases List.mem_cons.mp member with first | later
          · exact first ▸ good
          · exact all item later

end AppFit.Scan
