import Mathlib.Algebra.BigOperators.Group.Finset.Basic
import Mathlib.Algebra.BigOperators.Ring.Finset
import Mathlib.Data.List.Chain
import Mathlib.Data.Set.Card
import AppFit.Lib.Forest

/- Walks down a finite graph, listed by their number of steps. From a root they end
   exactly when no cycle can be reached, and what is summed up over a node and
   then over its children counts every node once for each walk that leads to it. -/
set_option autoImplicit false

namespace AppFit.Walks

open Relation AppFit.Forest

variable {ν : Type} (children : ν → List ν)

def walks : Nat → ν → List (List ν)
  | 0, root => [[root]]
  | steps + 1, root => (children root).flatMap fun child => (walks steps child).map (root :: ·)

def linkOf (parent child : ν) : Prop := child ∈ children parent

-- A walk is the list of the nodes it passes, from its root on.
def Walk (link : ν → ν → Prop) (root : ν) (path : List ν) : Prop := path.head? = some root ∧ path.IsChain link

theorem mem_walks (steps : Nat) (root : ν) (path : List ν) :
    path ∈ walks children steps root ↔ path.length = steps + 1 ∧ Walk (linkOf children) root path := by
  induction steps generalizing root path with
  | zero =>
      rw [walks, List.mem_singleton]
      constructor
      · intro same
        subst same
        exact ⟨rfl, rfl, .singleton root⟩
      · intro walk
        obtain ⟨short, head, _⟩ := walk
        obtain ⟨node, rfl⟩ := List.length_eq_one_iff.mp short
        cases head
        rfl
  | succ steps ih =>
      rw [walks, List.mem_flatMap]
      constructor
      · intro found
        obtain ⟨child, first, later⟩ := found
        obtain ⟨rest, member, rfl⟩ := List.mem_map.mp later
        obtain ⟨length, head, chain⟩ := (ih child rest).mp member
        refine ⟨by rw [List.length_cons, length], rfl, List.isChain_cons.mpr ⟨?_, chain⟩⟩
        intro node start
        rw [head, Option.mem_some_iff] at start
        exact start ▸ first
      · intro walk
        obtain ⟨length, head, chain⟩ := walk
        match path, length, head, chain with
        | node :: child :: rest, length, head, chain =>
            cases head
            obtain ⟨first, chain⟩ := List.isChain_cons_cons.mp chain
            refine ⟨child, first, List.mem_map.mpr ⟨child :: rest, (ih child _).mpr ⟨?_, rfl, chain⟩, rfl⟩⟩
            simpa using length

theorem walks_nodup (distinct : ∀ node, (children node).Nodup) (steps : Nat) (root : ν) :
    (walks children steps root).Nodup := by
  induction steps generalizing root with
  | zero => exact List.nodup_singleton _
  | succ steps ih =>
      rw [walks, List.nodup_flatMap]
      refine ⟨fun child _ => (ih child).map (List.cons_injective), ?_⟩
      refine (distinct root).imp fun {first second} different => ?_
      rw [Function.onFun, List.disjoint_left]
      intro path left right
      obtain ⟨rest, member, rfl⟩ := List.mem_map.mp left
      obtain ⟨other, again, same⟩ := List.mem_map.mp right
      cases same
      have headFirst := ((mem_walks children steps first rest).mp member).2.1
      have headSecond := ((mem_walks children steps second rest).mp again).2.1
      exact different (Option.some.inj (headFirst.symm.trans headSecond))

theorem walks_succ_nil (steps : Nat) (root : ν) :
    walks children (steps + 1) root = [] ↔ ∀ child ∈ children root, walks children steps child = [] := by
  simp [walks]

theorem walks_end_acyclic (steps : Nat) (root : ν) (ended : walks children steps root = []) (node : ν)
    (below : ReflTransGen (linkOf children) root node) : ¬ TransGen (linkOf children) node node := by
  induction steps generalizing root node with
  | zero => cases ended
  | succ steps ih =>
      have later := (walks_succ_nil children steps root).mp ended
      intro cycle
      rcases below.cases_head with same | ⟨child, first, rest⟩
      · subst same
        obtain ⟨child, first, back⟩ := TransGen.head'_iff.mp cycle
        exact ih child (later child first) root back cycle
      · exact ih child (later child first) node rest cycle

-- Without a cycle there are fewer nodes below a child than below its parent.
theorem acyclic_child_smaller (link : ν → ν → Prop) (nodes : Finset ν) (root child : ν) (inside : root ∈ nodes)
    (acyclic : ¬ TransGen link root root) (first : link root child) :
    (reachable link nodes child).card < (reachable link nodes root).card := by
  refine Finset.card_lt_card (Finset.ssubset_iff_of_subset ?_ |>.mpr ⟨root, ?_, ?_⟩)
  · intro node below
    obtain ⟨here, path⟩ := (mem_reachable link nodes child node).mp below
    exact (mem_reachable link nodes root node).mpr ⟨here, .head first path⟩
  · exact (mem_reachable link nodes root root).mpr ⟨inside, .refl⟩
  · intro back
    exact acyclic (TransGen.head' first ((mem_reachable link nodes child root).mp back).2)

theorem acyclic_walks_end (nodes : Finset ν) (closed : ∀ parent child, linkOf children parent child → child ∈ nodes)
    (steps : Nat) (root : ν) (inside : root ∈ nodes)
    (acyclic : ∀ node, ReflTransGen (linkOf children) root node → ¬ TransGen (linkOf children) node node)
    (enough : (reachable (linkOf children) nodes root).card ≤ steps) : walks children steps root = [] := by
  induction steps generalizing root with
  | zero =>
      have here : root ∈ reachable (linkOf children) nodes root := (mem_reachable _ _ _ _).mpr ⟨inside, .refl⟩
      rw [Nat.le_zero, Finset.card_eq_zero] at enough
      rw [enough] at here
      cases here
  | succ steps ih =>
      rw [walks_succ_nil]
      intro child first
      have smaller := acyclic_child_smaller (linkOf children) nodes root child inside (acyclic root .refl) first
      exact ih child (closed root child first) (fun node below => acyclic node (.head first below)) (by omega)

theorem walks_end_iff (nodes : Finset ν) (closed : ∀ parent child, linkOf children parent child → child ∈ nodes)
    (root : ν) (inside : root ∈ nodes) :
    (∃ steps, walks children steps root = []) ↔
      ∀ node, ReflTransGen (linkOf children) root node → ¬ TransGen (linkOf children) node node := by
  constructor
  · intro ends node below
    obtain ⟨steps, ended⟩ := ends
    exact walks_end_acyclic children steps root ended node below
  · intro acyclic
    exact ⟨_, acyclic_walks_end children nodes closed _ root inside acyclic (Nat.le_refl _)⟩

section Sums

variable {M : Type} [AddCommMonoid M] (weigh : ν → M)

def endWeight (path : List ν) : M := path.getLast?.elim 0 weigh

def gathered (fuel : Nat) (root : ν) : M :=
  ((List.range fuel).map fun steps => ((walks children steps root).map (endWeight weigh)).sum).sum

theorem end_weight_cons (root : ν) (path : List ν) (some : path ≠ []) :
    endWeight weigh (root :: path) = endWeight weigh path := by
  rw [endWeight, endWeight, List.getLast?_cons_of_ne_nil some]

theorem gathered_step (steps : Nat) (root : ν) :
    ((walks children (steps + 1) root).map (endWeight weigh)).sum =
      ((children root).map fun child => ((walks children steps child).map (endWeight weigh)).sum).sum := by
  rw [walks, List.map_flatMap, List.flatMap_def, List.sum_flatten, List.map_map]
  congr 1
  refine List.map_congr_left fun child _ => ?_
  rw [Function.comp_apply, List.map_map]
  congr 1
  refine List.map_congr_left fun path member => end_weight_cons weigh root path ?_
  have length := ((mem_walks children steps child path).mp member).1
  exact List.ne_nil_of_length_pos (by omega)

theorem exchange_sums {α β : Type} (rows : List α) (columns : List β) (entry : α → β → M) :
    (rows.map fun row => (columns.map (entry row)).sum).sum =
      (columns.map fun column => (rows.map fun row => entry row column).sum).sum := by
  induction rows with
  | nil => simp
  | cons row rest ih => simp only [List.map_cons, List.sum_cons, ih, List.sum_map_add]

theorem gathered_succ (fuel : Nat) (root : ν) :
    gathered children weigh (fuel + 1) root =
      weigh root + ((children root).map (gathered children weigh fuel)).sum := by
  have start : ((walks children 0 root).map (endWeight weigh)).sum = weigh root := by
    simp [walks, endWeight]
  rw [gathered, List.range_succ_eq_map, List.map_cons, List.sum_cons, start, List.map_map]
  congr 1
  calc ((List.range fuel).map _).sum
      = ((List.range fuel).map fun steps =>
          ((children root).map fun child => ((walks children steps child).map (endWeight weigh)).sum).sum).sum :=
        congrArg List.sum (List.map_congr_left fun steps _ => gathered_step children weigh steps root)
    _ = ((children root).map (gathered children weigh fuel)).sum := exchange_sums _ _ _

end Sums

-- The number of walks from a root to a node.
noncomputable def walkCount (link : ν → ν → Prop) (root node : ν) : Nat :=
  {path | Walk link root path ∧ path.getLast? = some node}.ncard

theorem walks_bounded (steps : Nat) (root : ν) (ended : walks children steps root = []) (path : List ν)
    (walk : Walk (linkOf children) root path) : path.length ≤ steps := by
  by_contra longer
  have part : path.take (steps + 1) ∈ walks children steps root := by
    refine (mem_walks children steps root _).mpr ⟨by rw [List.length_take]; omega, ?_, walk.2.take _⟩
    rw [List.head?_take]
    simp [walk.1]
  rw [ended] at part
  cases part

def allWalks (fuel : Nat) (root : ν) : List (List ν) := (List.range fuel).flatMap fun steps => walks children steps root

theorem mem_all_walks (fuel : Nat) (root : ν) (ended : walks children fuel root = []) (path : List ν) :
    path ∈ allWalks children fuel root ↔ Walk (linkOf children) root path := by
  rw [allWalks, List.mem_flatMap]
  constructor
  · intro found
    obtain ⟨steps, _, member⟩ := found
    exact ((mem_walks children steps root path).mp member).2
  · intro walk
    have bounded := walks_bounded children fuel root ended path walk
    have started : 0 < path.length := List.length_pos_of_ne_nil (by
      intro empty
      rw [empty] at walk
      cases walk.1)
    refine ⟨path.length - 1, List.mem_range.mpr (by omega), (mem_walks children _ root path).mpr ⟨by omega, walk⟩⟩

theorem all_walks_nodup (distinct : ∀ node, (children node).Nodup) (fuel : Nat) (root : ν) :
    (allWalks children fuel root).Nodup := by
  rw [allWalks, List.nodup_flatMap]
  refine ⟨fun steps _ => walks_nodup children distinct steps root, ?_⟩
  refine List.nodup_range.imp fun {first second} different => ?_
  rw [Function.onFun, List.disjoint_left]
  intro path left right
  have lengthFirst := ((mem_walks children first root path).mp left).1
  have lengthSecond := ((mem_walks children second root path).mp right).1
  omega

theorem walk_end_inside (nodes : Finset ν) (closed : ∀ parent child, linkOf children parent child → child ∈ nodes)
    (root : ν) (inside : root ∈ nodes) (path : List ν) (walk : Walk (linkOf children) root path) :
    ∃ node ∈ nodes, path.getLast? = some node := by
  induction path generalizing root with
  | nil => cases walk.1
  | cons head rest ih =>
      obtain ⟨start, chain⟩ := walk
      cases start
      cases rest with
      | nil => exact ⟨head, inside, rfl⟩
      | cons child rest =>
          obtain ⟨first, chain⟩ := List.isChain_cons_cons.mp chain
          rw [List.getLast?_cons_cons]
          exact ih child (closed head child first) ⟨rfl, chain⟩

open Classical in
theorem walk_count_filter (fuel : Nat) (root node : ν) (ended : walks children fuel root = []) :
    walkCount (linkOf children) root node = ((allWalks children fuel root).toFinset.filter (·.getLast? = some node)).card := by
  rw [walkCount, ← Set.ncard_coe_finset]
  congr 1
  ext path
  simp [mem_all_walks children fuel root ended]

-- Each node counts once for each walk that leads to it.
theorem gathered_counts {K : Type} [Semiring K] (weigh : ν → K) (nodes : Finset ν)
    (distinct : ∀ node, (children node).Nodup)
    (closed : ∀ parent child, linkOf children parent child → child ∈ nodes) (fuel : Nat) (root : ν) (inside : root ∈ nodes)
    (ended : walks children fuel root = []) :
    gathered children weigh fuel root = ∑ node ∈ nodes, walkCount (linkOf children) root node * weigh node := by
  classical
  have listed : gathered children weigh fuel root = ∑ path ∈ (allWalks children fuel root).toFinset, endWeight weigh path := by
    rw [List.sum_toFinset _ (all_walks_nodup children distinct fuel root), allWalks, List.map_flatMap, List.flatMap_def,
      List.sum_flatten, List.map_map]
    rfl
  have ends : ∀ path ∈ (allWalks children fuel root).toFinset,
      endWeight weigh path = ∑ node ∈ nodes, if path.getLast? = some node then weigh node else 0 := by
    intro path member
    have walk := (mem_all_walks children fuel root ended path).mp (List.mem_toFinset.mp member)
    obtain ⟨node, here, last⟩ := walk_end_inside children nodes closed root inside path walk
    simp [endWeight, last, here]
  rw [listed, Finset.sum_congr rfl ends, Finset.sum_comm]
  refine Finset.sum_congr rfl fun node _ => ?_
  rw [← Finset.sum_filter, Finset.sum_const, nsmul_eq_mul, walk_count_filter children fuel root node ended]

end AppFit.Walks
