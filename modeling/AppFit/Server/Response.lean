import AppFit.Lib.JsonRoundTrip
import AppFit.Server.CpuSets

/- The text that comments_handler answers with: json.dumps of the contents it has
   collected. -/
set_option autoImplicit false

namespace AppFit.Server

open AppFit.Shell AppFit.JsonText

def responseText (contents : List Text) : Text := (dump none 0 (.list (contents.map .str))).text

-- none is the exception that reaches Flask, which answers with an error page.
def answerText (numCores : Nat) (server : ServerState) (exchange : Exchange) : Option Text :=
  (commentsHandler numCores server exchange).2.map fun files => responseText (files.map StoredFile.content)

theorem contents_encodable (contents : List Text) : encodable (.list (contents.map .str)) = true := by
  rw [encodable, encodable_items_all, List.all_map, List.all_eq_true]
  intro text _
  rw [Function.comp_apply, encodable]

theorem response_loads (contents : List Text) : loads (responseText contents) = some (.list (contents.map .str)) :=
  loads_dump none 0 _ (by rw [dump_completed, contents_encodable])

-- Every run of a tabled host leaves its file in a directory without others.
theorem answer_of_runs (numCores : Nat) (server : ServerState) (request : Request) (outcome : Outcome)
    (content : Nat → Text) (tabled : numCores = 1 ∨ numCores = 4 ∨ numCores = 8) (normal : request.debugMode = false)
    (launched : launchable request = true) (completed : exitStatus (handlerWords server.cacheFile request) outcome = 0)
    (clean : ∀ file ∈ server.directory.files, plotMatch file.name = false)
    (copied : ∀ runId ∈ [1, 2, 3, 4], outcome.copied runId = some (content runId)) :
    answerText numCores server (request, outcome) = some (responseText ([1, 2, 3, 4].map content)) := by
  have ids : runIds numCores = [1, 2, 3, 4] := by rw [runIds, cpu_sets_four numCores tabled]; rfl
  have plots : ∀ runId ∈ runIds numCores, (outcome.copied runId).isSome = true := by
    intro runId member
    rw [copied runId (ids ▸ member), Option.isSome_some]
  have written : writtenRuns numCores (handlerWords server.cacheFile request) outcome = [1, 2, 3, 4] := by
    rw [handlerWords, written_all_runs numCores request _ outcome normal completed plots, ids]
  have read : ∀ runId ∈ [1, 2, 3, 4], (executed numCores server (request, outcome)).directory.read (plotName runId) =
      some ⟨plotName runId, content runId, server.handled⟩ := fun runId member =>
    executed_read numCores server (request, outcome) runId (content runId) clean (written ▸ member) (copied runId member)
  rw [answerText, handler_response, if_pos launched, if_pos completed, Option.map_some, collect_plots_eq,
    sorted_plot_names _ (executed_plot_names numCores server (request, outcome) clean written)]
  simp only [List.filterMap_cons, read 1 (by simp), read 2 (by simp), read 3 (by simp), read 4 (by simp),
    List.filterMap_nil, List.map_cons, List.map_nil]

end AppFit.Server
