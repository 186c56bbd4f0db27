import Mathlib.Data.Finset.Card
import AppFit.Server.FreshPlots
import AppFit.Server.Options

/- The four results of a request, with the CPUs that each run may use. numCores is
   what the script counts in /proc/cpuinfo, and it is taken to be the number of
   cores that the host has. -/
set_option autoImplicit false

namespace AppFit.Server

open AppFit.Shell AppFit.Runs

def decimal (text : Text) : Option Nat :=
  if text ≠ [] ∧ text.all Char.isDigit then some (Nat.ofDigitChars 10 text 0) else none

def cpuRange (part : Text) : Option (List Nat) :=
  match part.splitOn '-' with
  | [single] => (decimal single).map fun cpu => [cpu]
  | [first, last] => (decimal first).bind fun low => (decimal last).map fun high => List.range' low (high + 1 - low)
  | _ => none

-- Docker's reading of a cpuset such as "0-3" or "0,2".
def cpus (set : Text) : Option (Finset Nat) :=
  ((set.splitOn ',').mapM cpuRange).map fun parts => parts.flatten.toFinset

def AscendingSets (numCores : Nat) (sets : List Text) : Prop :=
  ∃ allocations : List (Finset Nat), sets.map cpus = allocations.map some ∧
    (∀ allocation ∈ allocations, allocation ⊆ Finset.range numCores) ∧
    allocations.Pairwise fun smaller larger => smaller.card ≤ larger.card

-- What getMetrics relies on: data[0] .. data[3] exist, come in the order of the
-- runs, and an earlier run had no larger allocation than a later one.
def FourResults (numCores : Nat) (server : ServerState) (exchange : Exchange) : Prop :=
  ∃ files result0 result1 result2 result3,
    (commentsHandler numCores server exchange).2 = some files ∧
    files.map StoredFile.content = [result0, result1, result2, result3] ∧
    [1, 2, 3, 4].map exchange.2.copied = [some result0, some result1, some result2, some result3] ∧
    (cpuSets numCores).length = 4 ∧ AscendingSets numCores (cpuSets numCores)

theorem tabled_sets_ascend (numCores : Nat) (tabled : numCores = 1 ∨ numCores = 4 ∨ numCores = 8) :
    AscendingSets numCores (cpuSets numCores) := by
  rcases tabled with rfl | rfl | rfl
  · exact ⟨[{0}, {0}, {0}, {0}], by decide, by decide, by decide⟩
  · exact ⟨[{0}, {0, 1}, {0, 1, 2}, {0, 1, 2, 3}], by decide, by decide, by decide⟩
  · exact ⟨[{0}, {0, 1}, {0, 1, 2, 3}, {0, 1, 2, 3, 4, 5, 6, 7}], by decide, by decide, by decide⟩

theorem parse_single_run (request : Request) (skip : Bool) (options : Options) (normal : request.debugMode = false)
    (parsed : parseOptions (commandWords request skip) = some options) : options.singleRun = false := by
  by_cases command : request.appCommand = []
  · rw [parse_empty_command request skip command, Option.some.injEq] at parsed
    rw [← parsed, normal]
  · by_cases package : request.appPackage = []
    · exact (empty_package_swallows request skip options command package parsed).2 normal
    · rw [parse_regular request skip package command, Option.some.injEq] at parsed
      rw [← parsed, normal]

theorem written_all_runs (numCores : Nat) (request : Request) (skip : Bool) (outcome : Outcome)
    (normal : request.debugMode = false) (completed : exitStatus (commandWords request skip) outcome = 0)
    (plots : ∀ runId ∈ runIds numCores, (outcome.copied runId).isSome = true) :
    writtenRuns numCores (commandWords request skip) outcome = runIds numCores := by
  rw [writtenRuns]
  cases parsed : parseOptions (commandWords request skip) with
  | none => simp [exitStatus, parsed] at completed
  | some options =>
      have repeated := parse_single_run request skip options normal parsed
      simp only [repeated, Bool.false_eq_true, if_false]
      exact List.filter_eq_self.mpr plots

theorem plot_names_sorted : [plotName 1, plotName 2, plotName 3, plotName 4].Pairwise (· ≤ ·) := by
  decide

theorem plot_names_distinct : [plotName 1, plotName 2, plotName 3, plotName 4].Nodup := by
  decide

theorem sorted_plot_names (directory : Directory)
    (exact : ∀ name, name ∈ directory.listdir ∧ plotMatch name = true ↔
      name ∈ [plotName 1, plotName 2, plotName 3, plotName 4]) :
    (directory.listdir.insertionSort (· ≤ ·)).filter plotMatch =
      [plotName 1, plotName 2, plotName 3, plotName 4] := by
  have sorted := List.perm_insertionSort (· ≤ ·) directory.listdir
  have distinct : ((directory.listdir.insertionSort (· ≤ ·)).filter plotMatch).Nodup :=
    (sorted.nodup_iff.mpr directory.distinct).filter _
  have rearranged := (List.perm_ext_iff_of_nodup distinct plot_names_distinct).mpr (by
    intro name
    rw [List.mem_filter, sorted.mem_iff]
    exact exact name)
  exact rearranged.eq_of_pairwise' ((List.pairwise_insertionSort (· ≤ ·) directory.listdir).filter _) plot_names_sorted

theorem executed_plot_names (numCores : Nat) (server : ServerState) (exchange : Exchange)
    (clean : ∀ file ∈ server.directory.files, plotMatch file.name = false)
    (written : writtenRuns numCores (handlerWords server.cacheFile exchange.1) exchange.2 = [1, 2, 3, 4]) (name : Text) :
    name ∈ (executed numCores server exchange).directory.listdir ∧ plotMatch name = true ↔
      name ∈ [plotName 1, plotName 2, plotName 3, plotName 4] := by
  have leftover := no_plots_leftover server clean
  have runs : name ∈ [plotName 1, plotName 2, plotName 3, plotName 4] ↔ ∃ runId ∈ [1, 2, 3, 4], name = plotName runId := by
    simp
  rw [runs]
  constructor
  · intro found
    obtain ⟨listed, matched⟩ := found
    obtain ⟨file, present, rfl⟩ := List.mem_map.mp listed
    rcases launched_plots numCores server _ exchange leftover file present matched with
      ⟨_, runId, member, named⟩ | ⟨_, runId, waiting, _⟩
    · exact ⟨runId, written ▸ member, named⟩
    · cases waiting
  · intro found
    obtain ⟨runId, member, rfl⟩ := found
    obtain ⟨file, present, named, _⟩ := launched_kept numCores server _ exchange leftover runId
      (List.mem_append_right _ (written ▸ member))
    exact ⟨List.mem_map.mpr ⟨file, present, named⟩, plot_name_match runId member⟩

theorem executed_read (numCores : Nat) (server : ServerState) (exchange : Exchange) (runId : Nat) (content : Text)
    (clean : ∀ file ∈ server.directory.files, plotMatch file.name = false)
    (written : runId ∈ writtenRuns numCores (handlerWords server.cacheFile exchange.1) exchange.2)
    (copied : exchange.2.copied runId = some content) :
    (executed numCores server exchange).directory.read (plotName runId) =
      some ⟨plotName runId, content, server.handled⟩ := by
  refine read_unique _ ⟨plotName runId, content, server.handled⟩ ?_
  exact (mem_launched numCores _ exchange.2 server.handled server.images server.directory
    (leftover_clean server _ (no_plots_leftover server clean)) _).mpr (Or.inl ⟨runId, written, content, copied, rfl⟩)

theorem four_results_iff (numCores : Nat) (server : ServerState) (request : Request) (outcome : Outcome)
    (normal : request.debugMode = false) (launched : launchable request = true)
    (completed : exitStatus (handlerWords server.cacheFile request) outcome = 0)
    (plots : ∀ runId ∈ runIds numCores, (outcome.copied runId).isSome = true)
    (clean : ∀ file ∈ server.directory.files, plotMatch file.name = false) :
    FourResults numCores server (request, outcome) ↔ numCores = 1 ∨ numCores = 4 ∨ numCores = 8 := by
  constructor
  · intro results
    obtain ⟨_, _, _, _, _, _, _, _, four, _⟩ := results
    by_contra other
    rw [cpu_sets_none numCores other] at four
    cases four
  · intro tabled
    have four := cpu_sets_four numCores tabled
    have ids : runIds numCores = [1, 2, 3, 4] := by rw [runIds, four]; rfl
    have written : writtenRuns numCores (handlerWords server.cacheFile request) outcome = [1, 2, 3, 4] := by
      rw [handlerWords, written_all_runs numCores request _ outcome normal completed plots, ids]
    have content : ∀ runId ∈ [1, 2, 3, 4], ∃ content, outcome.copied runId = some content := fun runId member =>
      Option.isSome_iff_exists.mp (plots runId (ids ▸ member))
    obtain ⟨result0, copied0⟩ := content 1 (by decide)
    obtain ⟨result1, copied1⟩ := content 2 (by decide)
    obtain ⟨result2, copied2⟩ := content 3 (by decide)
    obtain ⟨result3, copied3⟩ := content 4 (by decide)
    have read := fun runId content member copied =>
      executed_read numCores server (request, outcome) runId content clean (written ▸ member) copied
    refine ⟨(collectPlots (executed numCores server (request, outcome)).directory).1, result0, result1, result2, result3,
      ?_, ?_, by simp [copied0, copied1, copied2, copied3], four,
      tabled_sets_ascend numCores tabled⟩
    · rw [handler_response, if_pos launched, if_pos completed]
    · rw [collect_plots_eq, sorted_plot_names _ (executed_plot_names numCores server (request, outcome) clean written)]
      simp [read 1 result0 (by decide) copied0, read 2 result1 (by decide) copied1, read 3 result2 (by decide) copied2,
        read 4 result3 (by decide) copied3]

theorem four_results_on_four_cores : FourResults 4 emptyServer (plainRequest, allPlots) :=
  (four_results_iff 4 emptyServer plainRequest allPlots rfl (by decide) (by decide) (by decide)
    (by decide)).mpr (by decide)

-- A host with two cores is not in the table: the loop has no words to run over.
theorem two_cores_no_results :
    (commentsHandler 2 emptyServer (plainRequest, allPlots)).2 = some [] ∧
      ¬ FourResults 2 emptyServer (plainRequest, allPlots) := by
  have empty : (commentsHandler 2 emptyServer (plainRequest, allPlots)).2 = some [] := by decide
  refine ⟨empty, ?_⟩
  intro results
  obtain ⟨files, _, _, _, _, response, contents, _⟩ := results
  rw [empty, Option.some.injEq] at response
  subst files
  cases contents

end AppFit.Server
