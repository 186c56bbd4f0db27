import Mathlib.Algebra.BigOperators.Group.List.Basic
import Mathlib.Algebra.Order.Field.Rat
import Mathlib.Data.List.Nodup
import Mathlib.Tactic.Linarith
import Mathlib.Tactic.NormNum
import Mathlib.Tactic.Ring

/- processTree.py as a heap of mutable Process objects, beside the flat CPU loop
   of agent.py. Objects are identified by allocation order, never by pid: two
   objects may carry the same pid. CPU values are exact rationals. -/
set_option autoImplicit false

namespace AppFit.Agent

abbrev ObjId := Nat

-- A Python set of objects. Its iteration order is unspecified; the insertion
-- order below is one of the possible ones.
structure ObjSet where
  members : List ObjId
  nodup : members.Nodup
deriving DecidableEq

def ObjSet.empty : ObjSet := ⟨[], List.nodup_nil⟩

def ObjSet.add (set : ObjSet) (process : ObjId) : ObjSet := ⟨set.members.insert process, set.nodup.insert⟩

structure Process where
  pid : Nat
  cpu : ℚ
  children : ObjSet
deriving DecidableEq

abbrev Heap := List Process

def newProcess (heap : Heap) (pid : Nat) (cpu : ℚ) : Heap × ObjId := (heap ++ [⟨pid, cpu, .empty⟩], heap.length)

inductive Children where
  | process (process : ObjId)
  | list (processes : List ObjId)

def addChildren (heap : Heap) (self : ObjId) : Children → Heap
  | .process process => heap.modify self fun object => { object with children := object.children.add process }
  | .list processes =>
      heap.modify self fun object => { object with children := processes.foldl ObjSet.add object.children }

-- The recursion of the source is bounded by fuel; running out of it, and a
-- reference to no object, give none.
def aggCpu : Nat → Heap → ObjId → Option ℚ
  | 0, _, _ => none
  | fuel + 1, heap, self =>
      match heap[self]? with
      | none => none
      | some object =>
          object.children.members.foldlM (fun aggregate child => (aggCpu fuel heap child).map (aggregate + ·))
            object.cpu

def AggCpu (heap : Heap) (self : ObjId) (value : ℚ) : Prop := ∃ fuel, aggCpu fuel heap self = some value

def addAnswer (aggregate answer : Option ℚ) : Option ℚ := aggregate.bind fun sum => answer.map (sum + ·)

instance : RightCommutative addAnswer where
  right_comm aggregate a b := by
    cases aggregate <;> cases a <;> cases b <;> simp [addAnswer, add_right_comm]

theorem agg_fold_answers (answer : ObjId → Option ℚ) (children : List ObjId) (aggregate : Option ℚ) :
    (aggregate.bind fun start => children.foldlM (fun sum child => (answer child).map (sum + ·)) start) =
      (children.map answer).foldl addAnswer aggregate := by
  induction children generalizing aggregate with
  | nil => cases aggregate <;> rfl
  | cons child tail ih =>
      rw [List.map_cons, List.foldl_cons, ← ih]
      cases aggregate with
      | none => rfl
      | some sum => rw [Option.bind_some, List.foldlM_cons]; rfl

theorem agg_cpu_succ (fuel : Nat) (heap : Heap) (self : ObjId) (object : Process) (read : heap[self]? = some object) :
    aggCpu (fuel + 1) heap self =
      (object.children.members.map (aggCpu fuel heap)).foldl addAnswer (some object.cpu) := by
  rw [aggCpu, read, ← agg_fold_answers]
  rfl

theorem add_answers_none (answers : List (Option ℚ)) : answers.foldl addAnswer none = none := by
  induction answers with
  | nil => rfl
  | cons _ _ ih => exact ih

theorem add_answers_some (start : ℚ) (values : List ℚ) :
    (values.map some).foldl addAnswer (some start) = some (start + values.sum) := by
  induction values generalizing start with
  | nil => simp
  | cons value tail ih =>
      simp only [List.map_cons, List.foldl_cons, List.sum_cons, ← add_assoc]
      exact ih (start + value)

theorem add_answers_mono (answer better : ObjId → Option ℚ) (children : List ObjId) (start : Option ℚ) (value : ℚ)
    (kept : ∀ child result, answer child = some result → better child = some result)
    (sum : (children.map answer).foldl addAnswer start = some value) :
    (children.map better).foldl addAnswer start = some value := by
  induction children generalizing start with
  | nil => exact sum
  | cons child tail ih =>
      simp only [List.map_cons, List.foldl_cons] at sum ⊢
      cases answered : answer child with
      | none =>
          have lost : addAnswer start (answer child) = none := by cases start <;> simp [addAnswer, answered]
          rw [lost, add_answers_none] at sum
          cases sum
      | some result =>
          rw [kept child result answered]
          rw [answered] at sum
          exact ih _ sum

theorem agg_cpu_more_fuel (fuel : Nat) (heap : Heap) (self : ObjId) (value : ℚ)
    (completed : aggCpu fuel heap self = some value) : aggCpu (fuel + 1) heap self = some value := by
  induction fuel generalizing self value with
  | zero => cases completed
  | succ fuel ih =>
      cases read : heap[self]? with
      | none => rw [aggCpu, read] at completed; cases completed
      | some object =>
          rw [agg_cpu_succ fuel heap self object read] at completed
          rw [agg_cpu_succ (fuel + 1) heap self object read]
          exact add_answers_mono _ _ _ _ _ ih completed

theorem agg_cpu_enough_fuel (fuel extra : Nat) (heap : Heap) (self : ObjId) (value : ℚ)
    (completed : aggCpu fuel heap self = some value) : aggCpu (fuel + extra) heap self = some value := by
  induction extra with
  | zero => exact completed
  | succ extra ih => exact agg_cpu_more_fuel (fuel + extra) heap self value ih

theorem agg_cpu_unique (heap : Heap) (self : ObjId) (a b : ℚ)
    (left : AggCpu heap self a) (right : AggCpu heap self b) : a = b := by
  obtain ⟨m, completedLeft⟩ := left
  obtain ⟨n, completedRight⟩ := right
  have atLeft := agg_cpu_enough_fuel m n heap self a completedLeft
  have atRight := agg_cpu_enough_fuel n m heap self b completedRight
  rw [Nat.add_comm] at atRight
  exact Option.some.inj (atLeft.symm.trans atRight)

mutual
inductive ProcTree where
  | node (pid : Nat) (cpu : ℚ) (children : ProcForest)
inductive ProcForest where
  | nil
  | cons (child : ProcTree) (tail : ProcForest)
end

structure Proc where
  pid : Nat
  cpu : ℚ
deriving DecidableEq

def rootCpu : ProcTree → ℚ
  | .node _ cpu _ => cpu

mutual
def descendants : ProcTree → List Proc
  | .node _ _ children => forestProcs children
def forestProcs : ProcForest → List Proc
  | .nil => []
  | .cons (.node pid cpu children) tail => ⟨pid, cpu⟩ :: forestProcs children ++ forestProcs tail
end

-- The sampling loop over app_process.children(recursive=True); a child whose
-- cpu_percent raises is skipped.
def totalCpuPercent (cpuPercent : Proc → Option ℚ) (children : List Proc) : ℚ :=
  children.foldl (fun total child => match cpuPercent child with
    | some percent => total + percent
    | none => total) 0

mutual
def buildTree (heap : Heap) : ProcTree → Heap × ObjId
  | .node pid cpu children =>
      let built := buildForest heap children
      let created := newProcess built.1 pid cpu
      (addChildren created.1 created.2 (.list built.2), created.2)
def buildForest (heap : Heap) : ProcForest → Heap × List ObjId
  | .nil => (heap, [])
  | .cons child tail =>
      let first := buildTree heap child
      let rest := buildForest first.1 tail
      (rest.1, first.2 :: rest.2)
end

mutual
def treeCpu : ProcTree → ℚ
  | .node _ cpu children => cpu + (forestCpus children).sum
def forestCpus : ProcForest → List ℚ
  | .nil => []
  | .cons child tail => treeCpu child :: forestCpus tail
end

mutual
def treeDepth : ProcTree → Nat
  | .node _ _ children => forestDepth children + 1
def forestDepth : ProcForest → Nat
  | .nil => 0
  | .cons child tail => max (treeDepth child) (forestDepth tail)
end

mutual
inductive TreeRep (heap : Heap) : ObjId → ProcTree → Prop where
  | node (self : ObjId) (object : Process) (ids : List ObjId) (children : ProcForest)
      (read : heap[self]? = some object) (links : object.children.members.Perm ids)
      (subtrees : ForestRep heap ids children) : TreeRep heap self (.node object.pid object.cpu children)
inductive ForestRep (heap : Heap) : List ObjId → ProcForest → Prop where
  | nil : ForestRep heap [] .nil
  | cons (id : ObjId) (ids : List ObjId) (child : ProcTree) (tail : ProcForest)
      (first : TreeRep heap id child) (rest : ForestRep heap ids tail) : ForestRep heap (id :: ids) (.cons child tail)
end

mutual
theorem agg_cpu_rep (heap : Heap) (self : ObjId) (tree : ProcTree) (fuel : Nat)
    (rep : TreeRep heap self tree) (enough : treeDepth tree ≤ fuel) : aggCpu fuel heap self = some (treeCpu tree) := by
  cases rep with
  | node _ object ids children read links subtrees =>
      cases fuel with
      | zero => simp [treeDepth] at enough
      | succ fuel =>
          have answers := agg_cpu_forest_rep heap ids children fuel subtrees (Nat.le_of_succ_le_succ enough)
          rw [agg_cpu_succ fuel heap self object read, (links.map (aggCpu fuel heap)).foldl_eq, answers,
            add_answers_some, treeCpu]
theorem agg_cpu_forest_rep (heap : Heap) (ids : List ObjId) (forest : ProcForest) (fuel : Nat)
    (rep : ForestRep heap ids forest) (enough : forestDepth forest ≤ fuel) :
    ids.map (aggCpu fuel heap) = (forestCpus forest).map some := by
  cases rep with
  | nil => rfl
  | cons id ids child tail first rest =>
      have bounds := Nat.max_le.mp enough
      rw [List.map_cons, agg_cpu_rep heap id child fuel first bounds.1,
        agg_cpu_forest_rep heap ids tail fuel rest bounds.2]
      rfl
end

mutual
theorem tree_rep_extend (heap extra : Heap) (self : ObjId) (tree : ProcTree) (rep : TreeRep heap self tree) :
    TreeRep (heap ++ extra) self tree := by
  cases rep with
  | node _ object ids children read links subtrees =>
      have bound : self < heap.length := (List.getElem?_eq_some_iff.mp read).1
      exact .node self object ids children (by rw [List.getElem?_append_left bound, read]) links
        (forest_rep_extend heap extra ids children subtrees)
theorem forest_rep_extend (heap extra : Heap) (ids : List ObjId) (forest : ProcForest)
    (rep : ForestRep heap ids forest) : ForestRep (heap ++ extra) ids forest := by
  cases rep with
  | nil => exact .nil
  | cons id ids child tail first rest =>
      exact .cons id ids child tail (tree_rep_extend heap extra id child first)
        (forest_rep_extend heap extra ids tail rest)
end

theorem add_list_members (set : ObjSet) (ids : List ObjId) (distinct : ids.Nodup)
    (fresh : ∀ id ∈ ids, id ∉ set.members) :
    (ids.foldl ObjSet.add set).members.Perm (ids ++ set.members) := by
  induction ids generalizing set with
  | nil => exact List.Perm.refl _
  | cons id tail ih =>
      obtain ⟨absent, distinct⟩ := List.nodup_cons.mp distinct
      have added : (set.add id).members = id :: set.members :=
        List.insert_of_not_mem (fresh id (by simp))
      have later := ih (set.add id) distinct (by
        intro other member
        rw [added, List.mem_cons, not_or]
        exact ⟨fun same => absent (same ▸ member), fresh other (by simp [member])⟩)
      rw [added] at later
      exact later.trans List.perm_middle

theorem build_tree_node (heap : Heap) (pid : Nat) (cpu : ℚ) (children : ProcForest) :
    buildTree heap (.node pid cpu children) =
      ((buildForest heap children).1 ++ [⟨pid, cpu, (buildForest heap children).2.foldl ObjSet.add .empty⟩],
        (buildForest heap children).1.length) := by
  simp [buildTree, newProcess, addChildren, List.modify_eq_take_cons_drop]

structure BuiltTree (heap : Heap) (tree : ProcTree) (built : Heap × Nat) : Prop where
  extends_ : ∃ extra, built.1 = heap ++ extra
  lower : heap.length ≤ built.2
  upper : built.2 < built.1.length
  rep : TreeRep built.1 built.2 tree

structure BuiltForest (heap : Heap) (forest : ProcForest) (built : Heap × List Nat) : Prop where
  extends_ : ∃ extra, built.1 = heap ++ extra
  bounds : ∀ id ∈ built.2, heap.length ≤ id ∧ id < built.1.length
  distinct : built.2.Nodup
  rep : ForestRep built.1 built.2 forest

mutual
theorem build_tree_spec (heap : Heap) (tree : ProcTree) : BuiltTree heap tree (buildTree heap tree) := by
  cases tree with
  | node pid cpu children =>
      have built := build_forest_spec heap children
      obtain ⟨extra, grown⟩ := built.extends_
      rw [build_tree_node]
      refine ⟨⟨extra ++ [_], by rw [grown, List.append_assoc]⟩, by simp [grown], by simp, ?_⟩
      refine .node (buildForest heap children).1.length
        ⟨pid, cpu, (buildForest heap children).2.foldl ObjSet.add .empty⟩ (buildForest heap children).2 children
        (by simp) ?_ (forest_rep_extend _ _ _ _ built.rep)
      simpa [ObjSet.empty] using add_list_members .empty (buildForest heap children).2 built.distinct
        (by simp [ObjSet.empty])
theorem build_forest_spec (heap : Heap) (forest : ProcForest) :
    BuiltForest heap forest (buildForest heap forest) := by
  cases forest with
  | nil => exact ⟨⟨[], by simp [buildForest]⟩, by simp [buildForest], by simp [buildForest], .nil⟩
  | cons child tail =>
      have first := build_tree_spec heap child
      have rest := build_forest_spec (buildTree heap child).1 tail
      obtain ⟨grownFirst, firstEq⟩ := first.extends_
      obtain ⟨grownRest, restEq⟩ := rest.extends_
      have lengthFirst := congrArg List.length firstEq
      have lengthRest := congrArg List.length restEq
      simp only [List.length_append] at lengthFirst lengthRest
      have upper := first.upper
      have lower := first.lower
      simp only [buildForest]
      refine ⟨⟨grownFirst ++ grownRest, by rw [restEq, firstEq, List.append_assoc]⟩, ?_, ?_, ?_⟩
      · intro id member
        dsimp only
        rcases List.mem_cons.mp member with same | later
        · subst same
          omega
        · have bounds := rest.bounds id later
          omega
      · refine List.nodup_cons.mpr ⟨fun member => ?_, rest.distinct⟩
        have bounds := rest.bounds _ member
        omega
      · refine .cons _ _ child tail ?_ rest.rep
        simp only [restEq]
        exact tree_rep_extend _ grownRest _ child first.rep
end

theorem build_tree_agg_cpu (tree : ProcTree) :
    AggCpu (buildTree [] tree).1 (buildTree [] tree).2 (treeCpu tree) :=
  ⟨treeDepth tree, agg_cpu_rep _ _ tree (treeDepth tree) (build_tree_spec [] tree).rep (Nat.le_refl _)⟩

theorem total_cpu_answered (cpuPercent : Proc → Option ℚ) (children : List Proc) (start : ℚ)
    (answers : ∀ child ∈ children, cpuPercent child = some child.cpu) :
    children.foldl (fun total child => match cpuPercent child with
      | some percent => total + percent
      | none => total) start = start + (children.map Proc.cpu).sum := by
  induction children generalizing start with
  | nil => simp
  | cons child tail ih =>
      rw [List.foldl_cons, answers child (by simp), ih (start + child.cpu) (fun other member => answers other (by simp [member])),
        List.map_cons, List.sum_cons, add_assoc]

theorem total_cpu_percent_sum (cpuPercent : Proc → Option ℚ) (children : List Proc)
    (answers : ∀ child ∈ children, cpuPercent child = some child.cpu) :
    totalCpuPercent cpuPercent children = (children.map Proc.cpu).sum := by
  rw [totalCpuPercent, total_cpu_answered cpuPercent children 0 answers, zero_add]

mutual
theorem tree_cpu_split (tree : ProcTree) : treeCpu tree = rootCpu tree + ((descendants tree).map Proc.cpu).sum := by
  cases tree with
  | node pid cpu children => rw [treeCpu, rootCpu, descendants, forest_cpu_split children]
theorem forest_cpu_split (forest : ProcForest) : (forestCpus forest).sum = ((forestProcs forest).map Proc.cpu).sum := by
  cases forest with
  | nil => rfl
  | cons child tail =>
      have first := tree_cpu_split child
      cases child with
      | node pid cpu children =>
          simp only [rootCpu, descendants] at first
          simp only [forestCpus, forestProcs, List.sum_cons, List.map_append, List.map_cons, List.sum_append,
            List.cons_append, first, forest_cpu_split tail]
          ring
end

-- psutil's listing is any arrangement of the descendants.
theorem sampled_cpu_is_aggregate_iff (tree : ProcTree) (cpuPercent : Proc → Option ℚ) (listing : List Proc)
    (lists : listing.Perm (descendants tree)) (answers : ∀ child ∈ listing, cpuPercent child = some child.cpu) :
    (∃ aggregate, AggCpu (buildTree [] tree).1 (buildTree [] tree).2 aggregate) ∧
      (AggCpu (buildTree [] tree).1 (buildTree [] tree).2 (totalCpuPercent cpuPercent listing) ↔ rootCpu tree = 0) := by
  have aggregate := build_tree_agg_cpu tree
  have total : totalCpuPercent cpuPercent listing = ((descendants tree).map Proc.cpu).sum := by
    rw [total_cpu_percent_sum cpuPercent listing answers, (lists.map Proc.cpu).sum_eq]
  have split := tree_cpu_split tree
  refine ⟨⟨_, aggregate⟩, ?_⟩
  rw [total]
  constructor
  · intro sampled
    have same := agg_cpu_unique _ _ _ _ sampled aggregate
    linarith
  · intro idle
    rw [idle, zero_add] at split
    exact split ▸ aggregate

-- The tree of testProcess, whose objects all carry the pid 1.
def testProcess : ProcTree :=
  .node 1 (104 / 10) (.cons (.node 1 (273 / 10) (.cons (.node 1 (574 / 10) .nil) (.cons (.node 1 (713 / 10) .nil) .nil)))
    (.cons (.node 1 (465 / 10) .nil) .nil))

theorem sampled_cpu_misses_root :
    ¬ AggCpu (buildTree [] testProcess).1 (buildTree [] testProcess).2
      (totalCpuPercent (fun child => some child.cpu) (descendants testProcess)) := by
  intro sampled
  have same := agg_cpu_unique _ _ _ _ sampled (build_tree_agg_cpu testProcess)
  rw [tree_cpu_split, total_cpu_percent_sum _ _ (fun _ _ => rfl)] at same
  have idle : rootCpu testProcess = 0 := by linarith
  norm_num [rootCpu, testProcess] at idle

def idleRoot : ProcTree := .node 1 0 (.cons (.node 2 (273 / 10) .nil) (.cons (.node 3 (465 / 10) .nil) .nil))

theorem sampled_cpu_idle_root :
    AggCpu (buildTree [] idleRoot).1 (buildTree [] idleRoot).2
      (totalCpuPercent (fun child => some child.cpu) (descendants idleRoot).reverse) :=
  (sampled_cpu_is_aggregate_iff idleRoot (fun child => some child.cpu) (descendants idleRoot).reverse
    (List.reverse_perm _) (fun _ _ => rfl)).2.mpr rfl

end AppFit.Agent
