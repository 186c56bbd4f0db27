import AppFit.Agent.ProcessGraph
import AppFit.Lib.Walks

/- aggCpu on Process objects that are linked in any way at all: when it returns,
   and what it adds up where a process has several parents. -/
set_option autoImplicit false

namespace AppFit.Agent

open Relation AppFit.Walks

def heapChildren (heap : Heap) (self : ObjId) : List ObjId := (heap[self]?.map fun object => object.children.members).getD []

def heapCpu (heap : Heap) (self : ObjId) : ℚ := (heap[self]?.map Process.cpu).getD 0

def Closed (heap : Heap) : Prop := ∀ parent child, linkOf (heapChildren heap) parent child → child < heap.length

theorem add_answers_missing (answers : List (Option ℚ)) (start : Option ℚ) (missing : none ∈ answers) :
    answers.foldl addAnswer start = none := by
  induction answers generalizing start with
  | nil => cases missing
  | cons answer rest ih =>
      rw [List.foldl_cons]
      rcases List.mem_cons.mp missing with here | later
      · subst here
        have lost : addAnswer start none = none := by cases start <;> rfl
        rw [lost, add_answers_none]
      · exact ih _ later

-- The recursion is as deep as the longest walk down from the process.
theorem agg_cpu_walks (heap : Heap) (closed : Closed heap) (fuel : Nat) (self : ObjId) (present : self < heap.length) :
    aggCpu fuel heap self =
      if walks (heapChildren heap) fuel self = [] then some (gathered (heapChildren heap) (heapCpu heap) fuel self)
      else none := by
  induction fuel generalizing self with
  | zero => rfl
  | succ fuel ih =>
      have read := List.getElem?_eq_getElem present
      have kids : heapChildren heap self = heap[self].children.members := by rw [heapChildren, read]; rfl
      have own : heapCpu heap self = heap[self].cpu := by rw [heapCpu, read]; rfl
      have below : ∀ child ∈ heapChildren heap self, child < heap.length := fun child => closed self child
      rw [agg_cpu_succ fuel heap self _ read, ← kids, ← own, gathered_succ]
      split
      · rename_i ended
        have answers : (heapChildren heap self).map (aggCpu fuel heap) =
            ((heapChildren heap self).map (gathered (heapChildren heap) (heapCpu heap) fuel)).map some := by
          rw [List.map_map]
          refine List.map_congr_left fun child member => ?_
          rw [ih child (below child member), if_pos ((walks_succ_nil _ fuel self).mp ended child member)]
          rfl
        rw [answers, add_answers_some]
      · rename_i goesOn
        rw [walks_succ_nil] at goesOn
        push Not at goesOn
        obtain ⟨child, member, longer⟩ := goesOn
        refine add_answers_missing _ _ (List.mem_map.mpr ⟨child, member, ?_⟩)
        rw [ih child (below child member), if_neg longer]

theorem arranged_describes (objects : Objects) (calls : List Call) (arranged : Heap)
    (sets : Rearranged (performAll objects calls) arranged) :
    arranged.length = objects.length ∧ ∀ self < arranged.length, ∃ object, arranged[self]? = some object ∧
      Describes (currentCpu objects calls) (Linked calls) self object := by
  obtain ⟨size, described⟩ := perform_all_describes objects calls
  refine ⟨sets.size.trans size, fun self bound => ?_⟩
  obtain ⟨object, read, current, links⟩ := described self (by rw [← size, ← sets.size]; exact bound)
  obtain ⟨other, otherRead, cpu, order⟩ := sets.objects self object read
  exact ⟨other, otherRead, cpu.trans current, fun child => order.mem_iff.trans (links child)⟩

theorem arranged_links (objects : Objects) (calls : List Call) (arranged : Heap)
    (inside : ∀ call ∈ calls, CallInside objects.length call) (sets : Rearranged (performAll objects calls) arranged) :
    linkOf (heapChildren arranged) = Linked calls := by
  obtain ⟨length, described⟩ := arranged_describes objects calls arranged sets
  funext self child
  by_cases present : self < arranged.length
  · obtain ⟨object, read, _, links⟩ := described self present
    rw [linkOf, heapChildren, read]
    exact propext (links child)
  · have missing : arranged[self]? = none := List.getElem?_eq_none (Nat.le_of_not_lt present)
    rw [linkOf, heapChildren, missing]
    refine propext (iff_of_false List.not_mem_nil fun linked => ?_)
    obtain ⟨process, member, _⟩ := linked
    exact present (length ▸ (inside _ member).1)

-- On any links: aggCpu returns just when no cycle can be reached, and a process
-- counts as often as there are ways down to it.
theorem agg_cpu_counts_walks (objects : Objects) (calls : List Call) (arranged : Heap)
    (inside : ∀ call ∈ calls, CallInside objects.length call) (sets : Rearranged (performAll objects calls) arranged)
    (self : ObjId) (present : self < objects.length) :
    ((∃ value, AggCpu arranged self value) ↔
        ∀ node, ReflTransGen (Linked calls) self node → ¬ TransGen (Linked calls) node node) ∧
      ∀ value, AggCpu arranged self value →
        value = ∑ process ∈ Finset.range objects.length,
          walkCount (Linked calls) self process * currentCpu objects calls process := by
  obtain ⟨length, described⟩ := arranged_describes objects calls arranged sets
  have links := arranged_links objects calls arranged inside sets
  have below : ∀ parent child, linkOf (heapChildren arranged) parent child → child < objects.length := by
    rw [links]
    exact linked_inside objects.length calls inside
  have closed : Closed arranged := fun parent child linked => length ▸ below parent child linked
  have computed := fun fuel => agg_cpu_walks arranged closed fuel self (length ▸ present)
  refine ⟨?_, ?_⟩
  · have ends := walks_end_iff (heapChildren arranged) (Finset.range objects.length)
      (fun parent child linked => Finset.mem_range.mpr (below parent child linked)) self (Finset.mem_range.mpr present)
    rw [links] at ends
    rw [← ends]
    constructor
    · intro aggregated
      obtain ⟨value, fuel, returned⟩ := aggregated
      refine ⟨fuel, ?_⟩
      by_contra goesOn
      rw [computed fuel, if_neg goesOn] at returned
      cases returned
    · intro ended
      obtain ⟨fuel, ended⟩ := ended
      exact ⟨_, fuel, by rw [computed fuel, if_pos ended]⟩
  · intro value aggregated
    obtain ⟨fuel, returned⟩ := aggregated
    rw [computed fuel] at returned
    split at returned
    · rename_i ended
      cases returned
      have distinct : ∀ node, (heapChildren arranged node).Nodup := by
        intro node
        rw [heapChildren]
        cases arranged[node]? with
        | none => exact List.nodup_nil
        | some object => exact object.children.nodup
      rw [gathered_counts (heapChildren arranged) (heapCpu arranged) (Finset.range objects.length) distinct
        (fun parent child linked => Finset.mem_range.mpr (below parent child linked)) fuel self
        (Finset.mem_range.mpr present) ended, links]
      refine Finset.sum_congr rfl fun process member => ?_
      obtain ⟨object, read, current, _⟩ := described process (length ▸ Finset.mem_range.mp member)
      rw [heapCpu, read, Option.map_some, Option.getD_some, current]
    · cases returned

-- The process at the bottom has two parents and counts twice.
def sharedObjects : Objects := [(1, 1), (2, 2), (3, 3), (4, 10)]
def sharedCalls : List Call :=
  [.addChildren 0 (.list [1, 2]), .addChildren 1 (.process 3), .addChildren 2 (.process 3)]

theorem shared_child_counts_twice :
    (26 : ℚ) = ∑ process ∈ Finset.range sharedObjects.length,
      walkCount (Linked sharedCalls) 0 process * currentCpu sharedObjects sharedCalls process := by
  have inside : ∀ call ∈ sharedCalls, CallInside sharedObjects.length call := by
    simp [sharedCalls, sharedObjects, CallInside, Children.added]
  refine (agg_cpu_counts_walks sharedObjects sharedCalls _ inside (rearranged_self _) 0 (by decide)).2 26 ⟨3, ?_⟩
  norm_num [performAll, sharedObjects, sharedCalls, perform, addChildren, newProcesses, aggCpu, ObjSet.add, ObjSet.empty,
    List.modify, List.insert]

end AppFit.Agent
