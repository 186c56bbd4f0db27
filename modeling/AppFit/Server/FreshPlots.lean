import AppFit.Server.Analytics

/- Which temp-plot files a response can hold. The abstract view of the working
   directory is the list of runs whose plot file is still there from executions
   that ended with a failure; the directory of the model simulates it. -/
set_option autoImplicit false

namespace AppFit.Server

open AppFit.Shell AppFit.Runs

structure Pending where
  cacheFile : CacheFile
  runs : List Nat

def pendingStep (numCores : Nat) (pending : Pending) (exchange : Exchange) : Pending :=
  let words := handlerWords pending.cacheFile exchange.1
  { cacheFile := nextCache pending.cacheFile exchange.1
    runs :=
      if launchable exchange.1 then
        if exitStatus words exchange.2 = 0 then [] else pending.runs ++ writtenRuns numCores words exchange.2
      else pending.runs }

-- An execution that succeeds writes again every plot file that the failing
-- executions since the last success have left.
def Rewrites (numCores : Nat) (pending : Pending) (exchange : Exchange) : Prop :=
  launchable exchange.1 = true → exitStatus (handlerWords pending.cacheFile exchange.1) exchange.2 = 0 →
    ∀ runId ∈ pending.runs, runId ∈ writtenRuns numCores (handlerWords pending.cacheFile exchange.1) exchange.2

def Fresh (numCores : Nat) (server : ServerState) (exchange : Exchange) : Prop :=
  ∀ files, (commentsHandler numCores server exchange).2 = some files →
    ∀ file ∈ files, file.writer = server.handled

structure Leftover (server : ServerState) (pending : Pending) : Prop where
  cache : server.cacheFile = pending.cacheFile
  plots : ∀ file ∈ server.directory.files, plotMatch file.name = true →
    file.writer < server.handled ∧ ∃ runId ∈ pending.runs, file.name = plotName runId
  kept : ∀ runId ∈ pending.runs, ∃ file ∈ server.directory.files, file.name = plotName runId
  range : ∀ runId ∈ pending.runs, runId ∈ [1, 2, 3, 4]

theorem plot_name_match (runId : Nat) (range : runId ∈ [1, 2, 3, 4]) : plotMatch (plotName runId) = true := by
  revert runId
  decide

theorem plot_name_inj (a b : Nat) (left : a ∈ [1, 2, 3, 4]) (right : b ∈ [1, 2, 3, 4])
    (same : plotName a = plotName b) : a = b := by
  have all : ∀ a ∈ [1, 2, 3, 4], ∀ b ∈ [1, 2, 3, 4], plotName a = plotName b → a = b := by decide
  exact all a left b right same

theorem run_ids_distinct (numCores : Nat) : ((runIds numCores).map plotName).Nodup := by
  refine (List.nodup_map_iff_inj_on List.nodup_range').mpr ?_
  intro a left b right same
  exact plot_name_inj a b (run_ids_bound numCores a left) (run_ids_bound numCores b right) same

-- No execution writes temp-plot.0.html, so the guarded cleanup never runs.
theorem leftover_clean (server : ServerState) (pending : Pending) (leftover : Leftover server pending) :
    cleanStale server.directory = server.directory := by
  rw [cleanStale, if_neg]
  intro listed
  obtain ⟨file, present, named⟩ := List.mem_map.mp listed
  have matched : plotMatch file.name = true := by
    rw [named]
    decide
  obtain ⟨_, runId, member, same⟩ := leftover.plots file present matched
  have other : ∀ runId ∈ [1, 2, 3, 4], plotName 0 ≠ plotName runId := by decide
  exact other runId (leftover.range runId member) (named.symm.trans same)

theorem mem_launched (numCores : Nat) (words : List Text) (outcome : Outcome) (writer : Nat)
    (images : Images) (directory : Directory) (clean : cleanStale directory = directory) (file : StoredFile) :
    file ∈ (launchAgent numCores words outcome writer images directory).directory.files ↔
      (∃ runId ∈ writtenRuns numCores words outcome, ∃ content,
        outcome.copied runId = some content ∧ file = ⟨plotName runId, content, writer⟩) ∨
      (file ∈ directory.files ∧ ∀ runId ∈ writtenRuns numCores words outcome, file.name ≠ plotName runId) := by
  unfold launchAgent writtenRuns
  cases parseOptions words with
  | none => simp
  | some options =>
      cases single : options.singleRun with
      | true => simp [single, clean]
      | false =>
          simp only [single, Bool.false_eq_true, if_false, clean, runLoop, List.mem_filter, and_imp,
            mem_copied outcome writer directory (runIds numCores) (run_ids_distinct numCores)]
          constructor
          · intro either
            rcases either with ⟨runId, member, content, copied, rfl⟩ | kept
            · exact Or.inl ⟨runId, ⟨member, by simp [copied]⟩, content, copied, rfl⟩
            · exact Or.inr kept
          · intro either
            rcases either with ⟨runId, member, content, copied, rfl⟩ | kept
            · exact Or.inl ⟨runId, member.1, content, copied, rfl⟩
            · exact Or.inr kept

theorem written_copied (numCores : Nat) (words : List Text) (outcome : Outcome) (runId : Nat)
    (member : runId ∈ writtenRuns numCores words outcome) : ∃ content, outcome.copied runId = some content := by
  rw [writtenRuns] at member
  split at member
  · simp at member
  · split at member
    · simp at member
    · exact Option.isSome_iff_exists.mp (List.mem_filter.mp member).2

theorem launched_plots (numCores : Nat) (server : ServerState) (pending : Pending) (exchange : Exchange)
    (leftover : Leftover server pending) (file : StoredFile)
    (present : file ∈ (executed numCores server exchange).directory.files)
    (matched : plotMatch file.name = true) :
    (file.writer = server.handled ∧
        ∃ runId ∈ writtenRuns numCores (handlerWords server.cacheFile exchange.1) exchange.2, file.name = plotName runId) ∨
      (file.writer < server.handled ∧ ∃ runId ∈ pending.runs, file.name = plotName runId ∧
        runId ∉ writtenRuns numCores (handlerWords server.cacheFile exchange.1) exchange.2) := by
  rcases (mem_launched numCores _ exchange.2 server.handled server.images server.directory
    (leftover_clean server pending leftover) file).mp present with ⟨runId, member, content, _, rfl⟩ | ⟨old, others⟩
  · exact Or.inl ⟨rfl, runId, member, rfl⟩
  · obtain ⟨older, runId, member, named⟩ := leftover.plots file old matched
    exact Or.inr ⟨older, runId, member, named, fun again => others runId again named⟩

theorem launched_kept (numCores : Nat) (server : ServerState) (pending : Pending) (exchange : Exchange)
    (leftover : Leftover server pending) (runId : Nat)
    (member : runId ∈ pending.runs ++ writtenRuns numCores (handlerWords server.cacheFile exchange.1) exchange.2) :
    ∃ file ∈ (executed numCores server exchange).directory.files, file.name = plotName runId ∧
      (runId ∉ writtenRuns numCores (handlerWords server.cacheFile exchange.1) exchange.2 →
        file.writer < server.handled) := by
  have clean := leftover_clean server pending leftover
  by_cases written : runId ∈ writtenRuns numCores (handlerWords server.cacheFile exchange.1) exchange.2
  · obtain ⟨content, copied⟩ := written_copied numCores _ exchange.2 runId written
    exact ⟨⟨plotName runId, content, server.handled⟩,
      (mem_launched numCores _ exchange.2 server.handled server.images server.directory clean _).mpr
        (Or.inl ⟨runId, written, content, copied, rfl⟩), rfl, fun absent => absurd written absent⟩
  · have waiting : runId ∈ pending.runs := (List.mem_append.mp member).resolve_right written
    obtain ⟨file, old, named⟩ := leftover.kept runId waiting
    have range := leftover.range runId waiting
    refine ⟨file, (mem_launched numCores _ exchange.2 server.handled server.images server.directory clean _).mpr
      (Or.inr ⟨old, ?_⟩), named, fun _ => ?_⟩
    · intro other again same
      rw [named] at same
      exact written (plot_name_inj runId other range (written_runs_bound numCores _ exchange.2 other again) same ▸ again)
    · exact (leftover.plots file old (by rw [named]; exact plot_name_match runId range)).1

theorem fresh_iff_rewrites (numCores : Nat) (server : ServerState) (pending : Pending) (exchange : Exchange)
    (leftover : Leftover server pending) : Fresh numCores server exchange ↔ Rewrites numCores pending exchange := by
  unfold Fresh Rewrites
  rw [handler_response, ← leftover.cache]
  cases launched : launchable exchange.1 with
  | false => simp
  | true =>
      by_cases succeeded : exitStatus (handlerWords server.cacheFile exchange.1) exchange.2 = 0
      · simp only [if_true, Option.some.injEq, forall_eq', succeeded, true_implies, mem_collected]
        constructor
        · intro fresh runId waiting
          by_contra absent
          obtain ⟨file, present, named, older⟩ :=
            launched_kept numCores server pending exchange leftover runId (List.mem_append_left _ waiting)
          have matched : plotMatch file.name = true := by
            rw [named]
            exact plot_name_match runId (leftover.range runId waiting)
          have stale := older absent
          rw [fresh file ⟨present, matched⟩] at stale
          exact Nat.lt_irrefl _ stale
        · intro rewrites file member
          rcases launched_plots numCores server pending exchange leftover file member.1 member.2 with
            ⟨fresh, _⟩ | ⟨_, runId, waiting, _, absent⟩
          · exact fresh
          · exact absurd (rewrites runId waiting) absent
      · simp [succeeded]

theorem leftover_refused (numCores : Nat) (server : ServerState) (pending : Pending) (exchange : Exchange)
    (leftover : Leftover server pending) (refused : launchable exchange.1 = false) :
    Leftover (serve numCores server exchange) (pendingStep numCores pending exchange) := by
  have directory : (serve numCores server exchange).directory = server.directory := by
    rw [serve_directory, refused]
    rfl
  have runs : (pendingStep numCores pending exchange).runs = pending.runs := by
    simp only [pendingStep, refused, Bool.false_eq_true, if_false]
  refine ⟨by rw [serve_cache, pendingStep, leftover.cache], ?_, ?_, ?_⟩
  · rw [directory, serve_handled, runs]
    intro file present matched
    obtain ⟨older, waiting⟩ := leftover.plots file present matched
    exact ⟨Nat.lt_succ_of_lt older, waiting⟩
  · rw [directory, runs]
    exact leftover.kept
  · rw [runs]
    exact leftover.range

theorem leftover_collected (numCores : Nat) (server : ServerState) (pending : Pending) (exchange : Exchange)
    (leftover : Leftover server pending) (launched : launchable exchange.1 = true)
    (succeeded : exitStatus (handlerWords server.cacheFile exchange.1) exchange.2 = 0) :
    Leftover (serve numCores server exchange) (pendingStep numCores pending exchange) := by
  have runs : (pendingStep numCores pending exchange).runs = [] := by
    simp only [pendingStep, launched, ← leftover.cache, succeeded, if_true]
  refine ⟨by rw [serve_cache, pendingStep, leftover.cache], ?_, by simp [runs], by simp [runs]⟩
  rw [serve_directory, if_pos launched, if_pos succeeded]
  intro file present matched
  rw [collect_leaves_no_plots _ file present] at matched
  cases matched

theorem leftover_failed (numCores : Nat) (server : ServerState) (pending : Pending) (exchange : Exchange)
    (leftover : Leftover server pending) (launched : launchable exchange.1 = true)
    (failed : exitStatus (handlerWords server.cacheFile exchange.1) exchange.2 ≠ 0) :
    Leftover (serve numCores server exchange) (pendingStep numCores pending exchange) := by
  have directory : (serve numCores server exchange).directory = (executed numCores server exchange).directory := by
    rw [serve_directory, if_pos launched, if_neg failed]
  have runs : (pendingStep numCores pending exchange).runs =
      pending.runs ++ writtenRuns numCores (handlerWords server.cacheFile exchange.1) exchange.2 := by
    simp only [pendingStep, launched, ← leftover.cache, failed, if_true, if_false]
  refine ⟨by rw [serve_cache, pendingStep, leftover.cache], ?_, ?_, ?_⟩
  · rw [directory, serve_handled, runs]
    intro file present matched
    rcases launched_plots numCores server pending exchange leftover file present matched with
      ⟨fresh, runId, written, named⟩ | ⟨older, runId, waiting, named, _⟩
    · exact ⟨by simp [fresh], runId, List.mem_append_right _ written, named⟩
    · exact ⟨Nat.lt_succ_of_lt older, runId, List.mem_append_left _ waiting, named⟩
  · rw [directory, runs]
    intro runId member
    obtain ⟨file, present, named, _⟩ := launched_kept numCores server pending exchange leftover runId member
    exact ⟨file, present, named⟩
  · rw [runs]
    intro runId member
    rcases List.mem_append.mp member with waiting | written
    · exact leftover.range runId waiting
    · exact written_runs_bound numCores _ exchange.2 runId written

theorem serve_leftover (numCores : Nat) (server : ServerState) (pending : Pending) (exchange : Exchange)
    (leftover : Leftover server pending) :
    Leftover (serve numCores server exchange) (pendingStep numCores pending exchange) := by
  cases launched : launchable exchange.1 with
  | false => exact leftover_refused numCores server pending exchange leftover launched
  | true =>
      by_cases succeeded : exitStatus (handlerWords server.cacheFile exchange.1) exchange.2 = 0
      · exact leftover_collected numCores server pending exchange leftover launched succeeded
      · exact leftover_failed numCores server pending exchange leftover launched succeeded

theorem no_plots_leftover (server : ServerState)
    (clean : ∀ file ∈ server.directory.files, plotMatch file.name = false) :
    Leftover server ⟨server.cacheFile, []⟩ := by
  refine ⟨rfl, fun file present matched => ?_, by simp, by simp⟩
  rw [clean file present] at matched
  cases matched

theorem responses_fresh_iff (numCores : Nat) (server : ServerState) (exchanges : List Exchange)
    (clean : ∀ file ∈ server.directory.files, plotMatch file.name = false) :
    Along (serve numCores) (Fresh numCores) server exchanges ↔
      Along (pendingStep numCores) (Rewrites numCores) ⟨server.cacheFile, []⟩ exchanges := by
  exact along_iff_of_simulation (serve numCores) (pendingStep numCores) Leftover (Fresh numCores) (Rewrites numCores)
    (fun state pending exchange leftover => fresh_iff_rewrites numCores state pending exchange leftover)
    (fun state pending exchange leftover _ => serve_leftover numCores state pending exchange leftover)
    server ⟨server.cacheFile, []⟩ exchanges (no_plots_leftover server clean)

def plainRequest : Request := ⟨"app.tar.gz".toList, "./serve".toList, "./load".toList, false, false⟩

def debugRequest : Request := { plainRequest with debugMode := true }

def firstPlotThenFailure : Outcome := ⟨true, fun runId => if runId = 1 then some "stale".toList else none, 1⟩

def allPlots : Outcome := ⟨true, fun runId => some ("run ".toList ++ Nat.toDigits 10 runId), 0⟩

theorem rewritten_plots_fresh :
    Along (serve 4) (Fresh 4) emptyServer [(plainRequest, firstPlotThenFailure), (plainRequest, allPlots)] := by
  refine (responses_fresh_iff 4 emptyServer _ (by decide)).mpr ⟨?_, ?_, trivial⟩
  · intro _ succeeded
    exact absurd succeeded (by decide)
  · intro _ _
    decide

theorem stale_plot_returned :
    ¬ Along (serve 4) (Fresh 4) emptyServer [(plainRequest, firstPlotThenFailure), (debugRequest, allPlots)] := by
  intro fresh
  have returned : (commentsHandler 4 (serve 4 emptyServer (plainRequest, firstPlotThenFailure))
      (debugRequest, allPlots)).2 = some [⟨plotName 1, "stale".toList, 0⟩] := by
    decide
  exact absurd (fresh.2.1 _ returned ⟨plotName 1, "stale".toList, 0⟩ (List.mem_singleton.mpr rfl)) (by decide)

end AppFit.Server
