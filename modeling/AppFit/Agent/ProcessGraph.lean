import AppFit.Agent.ProcessTree
import AppFit.Lib.Forest

/- Process objects under any history of addChildren and setCpu calls. The links are
   those of the calls, the objects need not form one tree nor be linked top down;
   only the links at the end have to be a forest. -/
set_option autoImplicit false

namespace AppFit.Agent

open AppFit.Forest

def setCpu (heap : Heap) (self : ObjId) (cpu : ℚ) : Heap := heap.modify self fun object => { object with cpu := cpu }

inductive Call where
  | addChildren (self : ObjId) (process : Children)
  | setCpu (self : ObjId) (cpu : ℚ)

def perform (heap : Heap) : Call → Heap
  | .addChildren self process => addChildren heap self process
  | .setCpu self cpu => setCpu heap self cpu

-- The pid and the initial CPU value of each object.
abbrev Objects := List (Nat × ℚ)

def newProcesses (objects : Objects) : Heap := objects.map fun object => ⟨object.1, object.2, .empty⟩

def performAll (objects : Objects) (calls : List Call) : Heap := calls.foldl perform (newProcesses objects)

def Children.added : Children → List ObjId
  | .process child => [child]
  | .list children => children

def CallInside (count : Nat) : Call → Prop
  | .addChildren self process => self < count ∧ ∀ child ∈ process.added, child < count
  | .setCpu self _ => self < count

def Linked (calls : List Call) (self child : ObjId) : Prop :=
  ∃ process, Call.addChildren self process ∈ calls ∧ child ∈ process.added

def cpuAfter (self : ObjId) (cpu : ℚ) : Call → ℚ
  | .addChildren _ _ => cpu
  | .setCpu other value => if other = self then value else cpu

def currentCpu (objects : Objects) (calls : List Call) (self : ObjId) : ℚ :=
  calls.foldl (cpuAfter self) ((objects[self]?.map Prod.snd).getD 0)

-- What the aggregate is meant to be: every process below self, once, with its
-- current value.
noncomputable def aggregate (objects : Objects) (calls : List Call) (self : ObjId) : ℚ :=
  ∑ process ∈ reachable (Linked calls) (Finset.range objects.length) self, currentCpu objects calls process

-- The same objects, with their sets iterated in any order.
structure Rearranged (heap arranged : Heap) : Prop where
  size : arranged.length = heap.length
  objects : ∀ (self : ObjId) (object : Process), heap[self]? = some object → ∃ other : Process,
    arranged[self]? = some other ∧ other.cpu = object.cpu ∧ other.children.members.Perm object.children.members

structure Describes (cpu : ObjId → ℚ) (link : ObjId → ObjId → Prop) (id : ObjId) (object : Process) : Prop where
  current : object.cpu = cpu id
  links : ∀ child, child ∈ object.children.members ↔ link id child

theorem mem_add_list (set : ObjSet) (processes : List ObjId) (child : ObjId) :
    child ∈ (processes.foldl ObjSet.add set).members ↔ child ∈ processes ∨ child ∈ set.members := by
  induction processes generalizing set with
  | nil => simp
  | cons first rest ih =>
      rw [List.foldl_cons, ih, ObjSet.add, List.mem_insert_iff, List.mem_cons]
      tauto

theorem linked_snoc (calls : List Call) (call : Call) (self child : ObjId) :
    Linked (calls ++ [call]) self child ↔
      Linked calls self child ∨ ∃ process, call = .addChildren self process ∧ child ∈ process.added := by
  constructor
  · intro linked
    obtain ⟨process, member, added⟩ := linked
    rcases List.mem_append.mp member with before | last
    · exact .inl ⟨process, before, added⟩
    · exact .inr ⟨process, (List.mem_singleton.mp last).symm, added⟩
  · intro either
    rcases either with linked | last
    · obtain ⟨process, member, added⟩ := linked
      exact ⟨process, List.mem_append_left _ member, added⟩
    · obtain ⟨process, same, added⟩ := last
      exact ⟨process, by simp [same], added⟩

theorem add_children_modify (heap : Heap) (self : ObjId) (process : Children) :
    addChildren heap self process =
      heap.modify self fun object => { object with children := process.added.foldl ObjSet.add object.children } := by
  cases process <;> rfl

theorem perform_size (heap : Heap) (call : Call) : (perform heap call).length = heap.length := by
  cases call with
  | addChildren self process => rw [perform, add_children_modify, List.length_modify]
  | setCpu self cpu => exact List.length_modify _ _ _

theorem perform_all_snoc (objects : Objects) (calls : List Call) (call : Call) :
    performAll objects (calls ++ [call]) = perform (performAll objects calls) call := by
  simp [performAll, List.foldl_append]

theorem current_cpu_snoc (objects : Objects) (calls : List Call) (call : Call) (self : ObjId) :
    currentCpu objects (calls ++ [call]) self = cpuAfter self (currentCpu objects calls self) call := by
  simp [currentCpu, List.foldl_append]

theorem perform_describes (objects : Objects) (calls : List Call) (call : Call) (self : ObjId) (object : Process)
    (described : Describes (currentCpu objects calls) (Linked calls) self object) (heap : Heap)
    (read : heap[self]? = some object) :
    ∃ next, (perform heap call)[self]? = some next ∧
      Describes (currentCpu objects (calls ++ [call])) (Linked (calls ++ [call])) self next := by
  cases call with
  | addChildren other process =>
      rw [perform, add_children_modify, List.getElem?_modify, read]
      by_cases same : other = self
      · subst same
        refine ⟨{ object with children := process.added.foldl ObjSet.add object.children }, by simp, ?_, ?_⟩
        · rw [current_cpu_snoc]
          exact described.current
        · intro child
          rw [mem_add_list, linked_snoc, described.links]
          simp [or_comm]
      · refine ⟨object, by simp [same], ?_, ?_⟩
        · rw [current_cpu_snoc]
          exact described.current
        · intro child
          rw [linked_snoc, described.links]
          simp [same]
  | setCpu other value =>
      rw [perform, setCpu, List.getElem?_modify, read]
      have links (child : ObjId) : Linked (calls ++ [.setCpu other value]) self child ↔ Linked calls self child := by
        rw [linked_snoc]
        simp
      by_cases same : other = self
      · subst same
        refine ⟨{ object with cpu := value }, by simp, ?_, ?_⟩
        · rw [current_cpu_snoc, cpuAfter, if_pos rfl]
        · intro child
          rw [links]
          exact described.links child
      · refine ⟨object, by simp [same], ?_, ?_⟩
        · rw [current_cpu_snoc, cpuAfter, if_neg same]
          exact described.current
        · intro child
          rw [links]
          exact described.links child

theorem perform_all_describes (objects : Objects) (calls : List Call) :
    (performAll objects calls).length = objects.length ∧ ∀ self < objects.length, ∃ object,
      (performAll objects calls)[self]? = some object ∧
        Describes (currentCpu objects calls) (Linked calls) self object := by
  induction calls using List.reverseRecOn with
  | nil =>
      refine ⟨List.length_map _, ?_⟩
      intro self inside
      refine ⟨_, by rw [performAll, List.foldl_nil, newProcesses, List.getElem?_map, List.getElem?_eq_getElem inside]; rfl,
        ?_, ?_⟩
      · simp [currentCpu, List.getElem?_eq_getElem inside]
      · intro child
        simp [ObjSet.empty, Linked]
  | append_singleton calls call ih =>
      rw [perform_all_snoc, perform_size]
      refine ⟨ih.1, ?_⟩
      intro self inside
      obtain ⟨object, read, described⟩ := ih.2 self inside
      exact perform_describes objects calls call self object described _ read

theorem linked_inside (count : Nat) (calls : List Call) (inside : ∀ call ∈ calls, CallInside count call)
    (self child : ObjId) (linked : Linked calls self child) : child < count := by
  obtain ⟨process, member, added⟩ := linked
  exact (inside _ member).2 child added

-- Below a child fewer processes are reachable than below its parent, so their
-- number is enough fuel.
theorem agg_cpu_described (heap : Heap) (cpu : ObjId → ℚ) (link : ObjId → ObjId → Prop) (forest : IsForest link)
    (described : ∀ self < heap.length, ∃ object, heap[self]? = some object ∧ Describes cpu link self object)
    (inside : ∀ self child, link self child → child < heap.length) (fuel : Nat) (self : ObjId)
    (present : self < heap.length) (enough : (reachable link (Finset.range heap.length) self).card ≤ fuel) :
    aggCpu fuel heap self = some (∑ process ∈ reachable link (Finset.range heap.length) self, cpu process) := by
  induction fuel generalizing self with
  | zero =>
      have root : self ∈ reachable link (Finset.range heap.length) self :=
        (mem_reachable _ _ _ _).mpr ⟨Finset.mem_range.mpr present, .refl⟩
      rw [Nat.le_zero, Finset.card_eq_zero] at enough
      rw [enough] at root
      cases root
  | succ fuel ih =>
      obtain ⟨object, read, current, links⟩ := described self present
      have answers : object.children.members.map (aggCpu fuel heap) = (object.children.members.map fun child =>
          ∑ process ∈ reachable link (Finset.range heap.length) child, cpu process).map some := by
        rw [List.map_map]
        apply List.map_congr_left
        intro child member
        have first := (links child).mp member
        have smaller := reachable_child_smaller link (Finset.range heap.length) forest self child
          (Finset.mem_range.mpr present) first
        exact ih child (inside self child first) (by omega)
      have total := sum_reachable link (Finset.range heap.length) forest cpu self object.children.members.toFinset
        (Finset.mem_range.mpr present) (fun child => by rw [List.mem_toFinset, links])
      rw [agg_cpu_succ fuel heap self object read, answers, add_answers_some, current, total,
        List.sum_toFinset _ object.children.nodup]

theorem agg_cpu_aggregate (objects : Objects) (calls : List Call) (arranged : Heap)
    (inside : ∀ call ∈ calls, CallInside objects.length call) (forest : IsForest (Linked calls))
    (sets : Rearranged (performAll objects calls) arranged) (self : ObjId) (present : self < objects.length) :
    AggCpu arranged self (aggregate objects calls self) := by
  obtain ⟨size, described⟩ := perform_all_describes objects calls
  have length : arranged.length = objects.length := sets.size.trans size
  have objectsKept : ∀ id < arranged.length, ∃ object, arranged[id]? = some object ∧
      Describes (currentCpu objects calls) (Linked calls) id object := by
    intro id bound
    obtain ⟨object, read, current, links⟩ := described id (length ▸ bound)
    obtain ⟨other, otherRead, cpu, order⟩ := sets.objects id object read
    exact ⟨other, otherRead, cpu.trans current, fun child => order.mem_iff.trans (links child)⟩
  have linksInside : ∀ id child, Linked calls id child → child < arranged.length := by
    rw [length]
    exact linked_inside objects.length calls inside
  rw [aggregate, ← length]
  exact ⟨_, agg_cpu_described arranged (currentCpu objects calls) (Linked calls) forest objectsKept linksInside _ self
    (length ▸ present) (Nat.le_refl _)⟩

theorem rearranged_self (heap : Heap) : Rearranged heap heap :=
  ⟨rfl, fun _ object read => ⟨object, read, rfl, List.Perm.refl _⟩⟩

-- The aggregate names the links and the current values only, so histories that
-- agree on these agree on it, whatever their order and grouping.
theorem agg_cpu_of_history (objects : Objects) (calls : List Call) (arranged : Heap)
    (inside : ∀ call ∈ calls, CallInside objects.length call) (forest : IsForest (Linked calls))
    (sets : Rearranged (performAll objects calls) arranged) :
    (∀ self < objects.length, AggCpu arranged self (aggregate objects calls self)) ∧
      ∀ (others : Objects) (history : List Call), others.length = objects.length →
        (∀ call ∈ history, CallInside others.length call) →
        (∀ self child, Linked history self child ↔ Linked calls self child) →
        (∀ self < objects.length, currentCpu others history self = currentCpu objects calls self) →
        ∀ self < objects.length, ∀ value,
          AggCpu (performAll others history) self value ↔ AggCpu (performAll objects calls) self value := by
  refine ⟨agg_cpu_aggregate objects calls arranged inside forest sets, ?_⟩
  intro others history count historyInside links values self present value
  have sameLinks : Linked history = Linked calls := by
    funext id child
    exact propext (links id child)
  have same : aggregate others history self = aggregate objects calls self := by
    rw [aggregate, aggregate, sameLinks, count]
    apply Finset.sum_congr rfl
    intro process below
    exact values process (Finset.mem_range.mp ((mem_reachable _ _ _ _).mp below).1)
  have left := agg_cpu_aggregate others history _ historyInside (sameLinks ▸ forest) (rearranged_self _) self
    (count ▸ present)
  have right := agg_cpu_aggregate objects calls _ inside forest (rearranged_self _) self present
  rw [same] at left
  constructor
  · intro aggregated
    rw [agg_cpu_unique _ self value _ aggregated left]
    exact right
  · intro aggregated
    rw [agg_cpu_unique _ self value _ aggregated right]
    exact left

-- testProcess, with a link that is added twice and a value that is set again.
def testObjects : Objects := [(1, 104 / 10), (1, 273 / 10), (1, 465 / 10), (1, 0), (1, 713 / 10)]
def testCalls : List Call :=
  [.addChildren 1 (.list [3, 4]), .setCpu 3 (574 / 10), .addChildren 0 (.list [1, 2]), .addChildren 0 (.process 2)]

theorem test_links (self child : Nat) (linked : Linked testCalls self child) :
    (self = 1 ∧ (child = 3 ∨ child = 4)) ∨ (self = 0 ∧ (child = 1 ∨ child = 2)) := by
  obtain ⟨process, member, added⟩ := linked
  simp only [testCalls, List.mem_cons, Call.addChildren.injEq, reduceCtorEq, false_or, List.not_mem_nil, or_false] at member
  rcases member with ⟨rfl, rfl⟩ | ⟨rfl, rfl⟩ | ⟨rfl, rfl⟩
  · simpa [Children.added] using added
  · simpa [Children.added] using added
  · simp only [Children.added, List.mem_singleton] at added
    exact .inr ⟨rfl, .inr added⟩

theorem test_links_forest : IsForest (Linked testCalls) := by
  have parents (first second child : Nat) (left : Linked testCalls first child)
      (right : Linked testCalls second child) : first = second := by
    have leftLinks := test_links first child left
    have rightLinks := test_links second child right
    omega
  have downwards (self child : Nat) (linked : Linked testCalls self child) : self < child := by
    have links := test_links self child linked
    omega
  have below (self child : Nat) (path : Relation.TransGen (Linked testCalls) self child) : self < child := by
    induction path with
    | single linked => exact downwards _ _ linked
    | tail _ linked ih => exact Nat.lt_trans ih (downwards _ _ linked)
  exact ⟨parents, fun node path => Nat.lt_irrefl node (below node node path)⟩

theorem test_history_aggregate :
    AggCpu (performAll testObjects testCalls) 0 (aggregate testObjects testCalls 0) ∧
      aggregate testObjects testCalls 0 = 2129 / 10 := by
  have inside : ∀ call ∈ testCalls, CallInside testObjects.length call := by
    simp [testCalls, testObjects, CallInside, Children.added]
  have aggregated := (agg_cpu_of_history testObjects testCalls _ inside test_links_forest (rearranged_self _)).1 0 (by decide)
  refine ⟨aggregated, agg_cpu_unique _ 0 _ _ aggregated ⟨3, ?_⟩⟩
  norm_num [performAll, testObjects, testCalls, perform, addChildren, setCpu, newProcesses, aggCpu, ObjSet.add, ObjSet.empty,
    List.modify, List.insert]

end AppFit.Agent
