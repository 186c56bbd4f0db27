import AppFit.Browser.Session

/- Whether the results of an analysis reach the page. The success handler plots
   before it records, and plotting needs the instance that asked to be mounted. -/
set_option autoImplicit false

namespace AppFit.Browser

open AppFit.Agent AppFit.Runs

structure SessionValid (session : Session) : Prop extends MountValid session where
  plottable : ∀ results, session.page.resultsState = some results → SomeBelow70 results

theorem session_valid_start : SessionValid startSession := by
  refine ⟨mount_valid_start, ?_⟩
  intro results stored
  cases stored

-- A response is recorded only after it has been plotted, so what is stored can
-- be plotted again.
theorem response_results (session : Session) (inst : Nat) (results : Results) :
    (handleResponse session inst results).page.resultsState =
      if session.mounted = some inst ∧ SomeBelow70 results then some results else session.page.resultsState := by
  have plots := plot_data_isSome (session.mounted == some inst) results
  rw [beq_iff_eq] at plots
  rw [handleResponse]
  cases plotted : plotData (session.mounted == some inst) results with
  | none =>
      rw [plotted] at plots
      exact (if_neg fun ready => absurd (plots.mpr ready) (by decide)).symm
  | some plot =>
      rw [plotted] at plots
      rw [if_pos (plots.mp rfl), render_page]
      rfl

theorem stored_step (session : Session) (event : SessionEvent) (results : Results)
    (stored : (sessionStep session event).page.resultsState = some results) :
    session.page.resultsState = some results ∨ SomeBelow70 results := by
  have edited (edits : event.edits = true) : session.page.resultsState = some results := by
    obtain ⟨form, appState, files, same, _⟩ := edit_step session event edits
    rwa [same] at stored
  cases event with
  | tabClick tab =>
      rw [tab_click_page] at stored
      exact .inl stored
  | submit =>
      rw [submit_step] at stored
      split at stored
      · rw [did_mount_page] at stored
        exact .inl stored
      · exact .inl stored
  | uploadAnswered index accepted =>
      obtain ⟨uploads, analytics, completed, same⟩ := upload_answer_frame session index accepted
      rw [sessionStep, same] at stored
      exact .inl stored
  | analyticsHandled index =>
      obtain ⟨analytics, awaiting, cacheFile, same⟩ := analytics_frame session index
      rw [sessionStep, same] at stored
      exact .inl stored
  | responseArrives index arrived =>
      rw [sessionStep, deliverResponse] at stored
      split at stored
      · exact .inl stored
      · rw [response_results] at stored
        split at stored
        · rename_i ready
          cases stored
          exact .inr ready.2
        · exact .inl stored
  | responseUnusable index => exact .inl stored
  | _ => exact .inl (edited rfl)

theorem session_valid_step (session : Session) (event : SessionEvent) (valid : SessionValid session) :
    SessionValid (sessionStep session event) := by
  refine ⟨mount_valid_step session event valid.toMountValid, ?_⟩
  intro results stored
  rcases stored_step session event results stored with before | below
  · exact valid.plottable results before
  · exact below

theorem session_valid_run (events : List SessionEvent) : SessionValid (run sessionStep startSession events) :=
  run_invariant sessionStep SessionValid startSession events session_valid_start session_valid_step

theorem instances_step (session : Session) (event : SessionEvent) :
    session.instances ≤ (sessionStep session event).instances := by
  cases mount_change session event with
  | kept mounted instances tab => omega
  | mounts mounted instances tab => omega
  | leaves mounted instances tab => omega

-- Serial numbers are never used again: an instance that is gone stays gone.
theorem unmounted_step (session : Session) (event : SessionEvent) (inst : Nat) (used : inst < session.instances)
    (gone : session.mounted ≠ some inst) : (sessionStep session event).mounted ≠ some inst := by
  cases mount_change session event with
  | kept mounted instances tab => rwa [mounted]
  | mounts mounted instances tab =>
      rw [mounted]
      intro same
      cases same
      exact Nat.lt_irrefl _ used
  | leaves mounted instances tab => simp [mounted]

theorem unmounted_run (session : Session) (events : List SessionEvent) (inst : Nat) (used : inst < session.instances)
    (gone : session.mounted ≠ some inst) : (run sessionStep session events).mounted ≠ some inst :=
  (run_invariant sessionStep (fun state => inst < state.instances ∧ state.mounted ≠ some inst) session events ⟨used, gone⟩
    fun state event before =>
      ⟨Nat.lt_of_lt_of_le before.1 (instances_step state event), unmounted_step state event inst before.1 before.2⟩).2

theorem mounted_step (session : Session) (event : SessionEvent) (inst : Nat) (valid : SessionValid session)
    (mounted : session.mounted = some inst) :
    (sessionStep session event).mounted = some inst ↔ ∀ tab, event = .tabClick tab → tab = .results := by
  have shown : session.page.currentTab = .results := valid.shown.mp (by rw [mounted]; rfl)
  cases event with
  | tabClick tab =>
      by_cases results : tab = .results
      · have same := tab_click_same session
        rw [shown, ← results] at same
        rw [same]
        exact ⟨fun _ other equal => (SessionEvent.tabClick.inj equal) ▸ results, fun _ => mounted⟩
      · obtain ⟨form, left⟩ := tab_click_leaves session tab (by rwa [shown]) results
        rw [left]
        exact ⟨fun same => (by cases same), fun all => absurd (all tab rfl) results⟩
  | submit =>
      have refused : ¬ canSubmit session = true := by
        simp [canSubmit, shown]
      rw [submit_step, if_neg refused]
      exact ⟨fun _ tab same => (by cases same), fun _ => mounted⟩
  | _ =>
      rw [(quiet_step session _ rfl).mounted]
      exact ⟨fun _ tab same => (by cases same), fun _ => mounted⟩

theorem mounted_run_iff (session : Session) (events : List SessionEvent) (inst : Nat) (valid : SessionValid session)
    (mounted : session.mounted = some inst) :
    (run sessionStep session events).mounted = some inst ↔
      ∀ tab, SessionEvent.tabClick tab ∈ events → tab = .results := by
  induction events generalizing session with
  | nil => exact ⟨fun _ tab member => (by cases member), fun _ => mounted⟩
  | cons event rest ih =>
      rw [run_cons]
      have here := mounted_step session event inst valid mounted
      by_cases stays : (sessionStep session event).mounted = some inst
      · rw [ih _ (session_valid_step session event valid) stays]
        constructor
        · intro later tab member
          rcases List.mem_cons.mp member with first | inRest
          · exact here.mp stays tab first.symm
          · exact later tab inRest
        · intro all tab member
          exact all tab (List.mem_cons_of_mem _ member)
      · have used := Nat.lt_of_lt_of_le (valid.fresh inst mounted) (instances_step session event)
        constructor
        · intro back
          exact absurd back (unmounted_run _ rest inst used stays)
        · intro all
          exact absurd (here.mpr fun tab same => all tab (same ▸ List.mem_cons_self)) stays

theorem did_mount_replots (session : Session) (inst : Nat) (results : Results) (analyze : session.page.analyze = false)
    (stored : session.page.resultsState = some results) :
    (componentDidMount session inst).canvas = plotData true results := by
  simp only [componentDidMount, analyze, stored, Bool.false_eq_true, if_false]

theorem return_replots (session : Session) (tab : Tab) (results : Results) (hidden : tab ≠ .results)
    (stored : session.page.resultsState = some results) :
    (run sessionStep session [.tabClick tab, .tabClick .results]).canvas = plotData true results := by
  have page := tab_click_page session tab
  have away : (sessionStep session (.tabClick tab)).page.currentTab ≠ .results := by
    rw [page]
    exact hidden
  rw [run_cons, run_cons, run_nil, tab_click_mounts _ away]
  apply did_mount_replots
  · rfl
  · rw [mount, page]
    exact stored

def Recorded (session : Session) (results : Results) : Prop :=
  session.page.resultsState = some results ∧
    ∀ tab, tab ≠ .results → ∃ plot, plotData true results = some plot ∧
      (run sessionStep session [.tabClick tab, .tabClick .results]).canvas = some plot

theorem recorded_iff (session : Session) (results : Results) (valid : SessionValid session) :
    Recorded session results ↔ session.page.resultsState = some results := by
  constructor
  · exact And.left
  · intro stored
    refine ⟨stored, ?_⟩
    intro tab hidden
    have plots := (plot_data_isSome true results).mpr ⟨rfl, valid.plottable results stored⟩
    obtain ⟨plot, plotted⟩ := Option.isSome_iff_exists.mp plots
    exact ⟨plot, plotted, (return_replots session tab results hidden stored).trans plotted⟩

theorem response_recorded_iff (before between : List SessionEvent) (inst index : Nat) (results : Results)
    (asked : (run sessionStep startSession before).mounted = some inst)
    (awaited : (run sessionStep startSession (before ++ between)).awaiting[index]? = some inst) :
    Recorded (run sessionStep startSession (before ++ between ++ [.responseArrives index results])) results ↔
      ((∀ tab, SessionEvent.tabClick tab ∈ between → tab = .results) ∧ SomeBelow70 results) ∨
        (run sessionStep startSession (before ++ between)).page.resultsState = some results := by
  have remains := mounted_run_iff (run sessionStep startSession before) between inst (session_valid_run before) asked
  rw [← run_append] at remains
  rw [recorded_iff _ _ (session_valid_run _), run_append sessionStep startSession (before ++ between), run_cons, run_nil,
    ← remains]
  simp only [sessionStep, deliverResponse, awaited]
  rw [response_results]
  split
  · rename_i ready
    exact ⟨fun _ => .inl ready, fun _ => rfl⟩
  · rename_i lost
    exact ⟨.inr, fun either => either.resolve_left lost⟩

def noPackets : Series Counter := ⟨[0], [⟨['0'], by decide, by simp [Char.isDigit]⟩]⟩

def loadedRun (meanCpu : ℚ) (cpuCores : Nat) : JsonData :=
  ⟨⟨[0], [meanCpu]⟩, meanCpu, cpuCores, ⟨[0], [4194304]⟩, 4194304, noPackets, noPackets, noPackets, noPackets⟩

def fourRuns (meanCpu : ℚ) : Results :=
  ⟨loadedRun meanCpu 1, loadedRun meanCpu 2, loadedRun meanCpu 3, loadedRun meanCpu 4⟩

def submission : List SessionEvent := [chosenPackage, .submit]

theorem clicked_results_recorded :
    Recorded (run sessionStep startSession (submission ++ [.analyticsHandled 0, .tabClick .results] ++
      [.responseArrives 0 (fourRuns 35)])) (fourRuns 35) := by
  refine (response_recorded_iff submission [.analyticsHandled 0, .tabClick .results] 0 0 (fourRuns 35)
    (by decide) (by decide)).mpr (.inl ⟨?_, ?_⟩)
  · intro tab member
    simpa using member
  · exact .inl (by decide)

theorem response_lost :
    (run sessionStep startSession (submission ++ [.analyticsHandled 0, .tabClick .application] ++
        [.responseArrives 0 (fourRuns 35)])).page.resultsState ≠ some (fourRuns 35) ∧
      (run sessionStep startSession (submission ++ [.analyticsHandled 0] ++
        [.responseArrives 0 (fourRuns 85)])).page.resultsState ≠ some (fourRuns 85) := by
  decide

end AppFit.Browser
