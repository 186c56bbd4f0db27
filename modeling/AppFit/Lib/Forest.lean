import Mathlib.Algebra.BigOperators.Group.Finset.Basic
import Mathlib.Logic.Relation

/- Forests given by their links: every node has at most one parent and no node is
   its own descendant. What is reachable from a node is the node and, apart from
   each other, what is reachable from its children. -/
set_option autoImplicit false

namespace AppFit.Forest

open Relation

variable {ν : Type}

structure IsForest (link : ν → ν → Prop) : Prop where
  parent : ∀ first second child, link first child → link second child → first = second
  acyclic : ∀ node, ¬ TransGen link node node

theorem ancestors_comparable (link : ν → ν → Prop) (forest : IsForest link) (first second node : ν)
    (left : ReflTransGen link first node) (right : ReflTransGen link second node) :
    ReflTransGen link first second ∨ ReflTransGen link second first := by
  induction left with
  | refl => exact .inr right
  | tail path last ih =>
      cases right with
      | refl => exact .inl (path.tail last)
      | tail other final =>
          have same := forest.parent _ _ _ final last
          subst same
          exact ih other

theorem child_unreachable (link : ν → ν → Prop) (forest : IsForest link) (parent first second : ν)
    (left : link parent first) (right : link parent second) (different : first ≠ second) :
    ¬ ReflTransGen link first second := by
  intro path
  cases path with
  | refl => exact different rfl
  | tail before last =>
      have same := forest.parent _ _ _ last right
      subst same
      exact forest.acyclic _ (TransGen.head' left before)

theorem children_apart (link : ν → ν → Prop) (forest : IsForest link) (parent first second node : ν)
    (left : link parent first) (right : link parent second) (different : first ≠ second)
    (underFirst : ReflTransGen link first node) : ¬ ReflTransGen link second node := by
  intro underSecond
  rcases ancestors_comparable link forest first second node underFirst underSecond with path | path
  · exact child_unreachable link forest parent first second left right different path
  · exact child_unreachable link forest parent second first right left (Ne.symm different) path

section

open Classical

noncomputable def reachable (link : ν → ν → Prop) (nodes : Finset ν) (root : ν) : Finset ν :=
  nodes.filter (ReflTransGen link root)

variable (link : ν → ν → Prop) (nodes : Finset ν) (forest : IsForest link)

theorem mem_reachable (root node : ν) :
    node ∈ reachable link nodes root ↔ node ∈ nodes ∧ ReflTransGen link root node :=
  Finset.mem_filter

theorem reachable_split (root : ν) (children : Finset ν) (inside : root ∈ nodes)
    (kids : ∀ child, child ∈ children ↔ link root child) :
    reachable link nodes root = insert root (children.biUnion (reachable link nodes)) := by
  ext node
  simp only [mem_reachable, Finset.mem_insert, Finset.mem_biUnion]
  constructor
  · intro found
    rcases found.2.cases_head with same | path
    · exact .inl same.symm
    · obtain ⟨child, first, rest⟩ := path
      exact .inr ⟨child, (kids child).mpr first, found.1, rest⟩
  · intro either
    rcases either with same | path
    · subst same
      exact ⟨inside, .refl⟩
    · obtain ⟨child, member, here, rest⟩ := path
      exact ⟨here, .head ((kids child).mp member) rest⟩

include forest

theorem root_below_no_child (root child : ν) (first : link root child) : root ∉ reachable link nodes child := by
  intro below
  exact forest.acyclic root (TransGen.head' first ((mem_reachable link nodes child root).mp below).2)

theorem reachable_child_smaller (root child : ν) (inside : root ∈ nodes) (first : link root child) :
    (reachable link nodes child).card < (reachable link nodes root).card := by
  apply Finset.card_lt_card
  refine Finset.ssubset_iff_of_subset ?_ |>.mpr ⟨root, ?_, root_below_no_child link nodes forest root child first⟩
  · intro node below
    obtain ⟨here, path⟩ := (mem_reachable link nodes child node).mp below
    exact (mem_reachable link nodes root node).mpr ⟨here, .head first path⟩
  · exact (mem_reachable link nodes root root).mpr ⟨inside, .refl⟩

theorem sum_reachable {M : Type} [AddCommMonoid M] (weigh : ν → M) (root : ν) (children : Finset ν)
    (inside : root ∈ nodes) (kids : ∀ child, child ∈ children ↔ link root child) :
    ∑ node ∈ reachable link nodes root, weigh node =
      weigh root + ∑ child ∈ children, ∑ node ∈ reachable link nodes child, weigh node := by
  have fresh : root ∉ children.biUnion (reachable link nodes) := by
    intro below
    obtain ⟨child, member, under⟩ := Finset.mem_biUnion.mp below
    exact root_below_no_child link nodes forest root child ((kids child).mp member) under
  rw [reachable_split link nodes root children inside kids, Finset.sum_insert fresh, Finset.sum_biUnion]
  intro first left second right different
  rw [Function.onFun, Finset.disjoint_left]
  intro node underFirst underSecond
  exact children_apart link forest root first second node ((kids first).mp left) ((kids second).mp right) different
    ((mem_reachable link nodes first node).mp underFirst).2 ((mem_reachable link nodes second node).mp underSecond).2

end

end AppFit.Forest
