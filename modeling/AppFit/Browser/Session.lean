import AppFit.Browser.Page
import AppFit.Server.Analytics

/- A run of the web page against the server: user events in the browser, and the
   arrival of uploads, analytics requests and responses in any order. An event
   that cannot happen in a state leaves it unchanged. An exception ends the
   callback that raised it, what it had done before stays. -/
set_option autoImplicit false

namespace AppFit.Browser

open AppFit.Shell AppFit.Server AppFit.Runs

-- The mounted ResultsForm instance, if there is one, is known by its serial
-- number, and canvas is what it has plotted. uploads and analytics are on their
-- way to the server, awaiting are the instances whose request has been handled;
-- completed holds the names of the files that /upload has stored.
structure Session where
  page : PageState
  form : AppForm
  mounted : Option Nat
  canvas : Option Plot
  instances : Nat
  uploads : List (Nat × FileList)
  analytics : List (Nat × Request)
  awaiting : List Nat
  cacheFile : CacheFile
  completed : List Text

def startSession : Session :=
  ⟨initialPage, initialForm none, none, none, 0, [], [], [], .missing, []⟩

-- The answer of /api/fetchcache carries any commands. When the form that asked
-- is no longer mounted, its setState calls are dropped, but updateState still
-- hands the state it had to the page. A response is unusable when the request
-- failed or when it does not hold four results, so that JSON.parse throws.
inductive SessionEvent where
  | tabClick (tab : Tab)
  | appCommandChange (value : Text)
  | testCommandChange (value : Text)
  | useCacheChange
  | debugModeChange
  | appPackageChange (files : FileList)
  | cacheFetched (appCommand testCommand : Text)
  | lateCacheFetched (state : AppState)
  | submit
  | uploadAnswered (index : Nat) (accepted : Bool)
  | analyticsHandled (index : Nat)
  | responseArrives (index : Nat) (results : Results)
  | responseUnusable (index : Nat)
deriving DecidableEq

-- getMetrics reads this.refs first, so on an unmounted instance it throws before
-- the request; fileToUpload[0].name throws on an empty selection.
def getMetrics (session : Session) (inst : Nat) : Session :=
  if session.mounted = some inst then
    match session.page.fileToUpload.bind List.head? with
    | none => session
    | some file =>
        { session with analytics := session.analytics ++ [(inst,
            { appPackage := file.name
              appCommand := session.page.submitted.appCommand
              testCommand := session.page.submitted.testCommand
              useCache := session.page.submitted.useCache
              debugMode := session.page.submitted.debugMode })] }
  else session

def componentDidMount (session : Session) (inst : Nat) : Session :=
  if session.page.analyze then
    if session.page.submitted.useCache then getMetrics session inst
    else
      match session.page.fileToUpload with
      | none => session
      | some files => { session with uploads := session.uploads ++ [(inst, files)] }
  else
    match session.page.resultsState with
    | none => session
    | some results => { session with canvas := plotData true results }

def mount (session : Session) (page : PageState) : Session :=
  { session with
    page := page
    mounted := some session.instances
    canvas := none
    instances := session.instances + 1 }

-- Render a new page state: another tab unmounts what was shown and mounts the
-- component of that tab; the same tab keeps the mounted instance.
def render (session : Session) (page : PageState) : Session :=
  if page.currentTab = session.page.currentTab then { session with page := page }
  else
    match page.currentTab with
    | .application =>
        { session with page := page, form := initialForm page.appState, mounted := none, canvas := none }
    | .tests => { session with page := page, mounted := none, canvas := none }
    | .results => componentDidMount (mount session page) session.instances

def applyQueued (session : Session) (queued : Queued) : Session :=
  render { session with form := session.form.flush queued.form } (session.page.flush queued.page)

-- The form's controls exist only while AppForm is mounted.
def onForm (session : Session) (queued : Queued) : Session :=
  if session.page.currentTab = .application then applyQueued session queued else session

def handleUploadAnswer (session : Session) (inst : Nat) (files : FileList) (accepted : Bool) : Session :=
  match files.head?, accepted with
  | some file, true => getMetrics { session with completed := file.name :: session.completed } inst
  | some _, false => session
  | none, _ => getMetrics session inst

def handleResponse (session : Session) (inst : Nat) (results : Results) : Session :=
  match plotData (session.mounted == some inst) results with
  | none => session
  | some plot => render { session with canvas := some plot } (session.page.flush [.resultsState results])

def answerUpload (session : Session) (index : Nat) (accepted : Bool) : Session :=
  match session.uploads[index]? with
  | none => session
  | some (inst, files) =>
      handleUploadAnswer { session with uploads := session.uploads.eraseIdx index } inst files accepted

def handleAnalytics (session : Session) (index : Nat) : Session :=
  match session.analytics[index]? with
  | none => session
  | some (inst, request) =>
      { session with
        analytics := session.analytics.eraseIdx index
        awaiting := session.awaiting ++ [inst]
        cacheFile := nextCache session.cacheFile request }

def deliverResponse (session : Session) (index : Nat) (results : Results) : Session :=
  match session.awaiting[index]? with
  | none => session
  | some inst => handleResponse { session with awaiting := session.awaiting.eraseIdx index } inst results

def sessionStep (session : Session) (event : SessionEvent) : Session :=
  match event with
  | .tabClick tab => render session (session.page.flush (handleTabClick tab))
  | .appCommandChange value => onForm session (handleAppCommandChange session.form value)
  | .testCommandChange value => onForm session (handleTestCommandChange session.form value)
  | .useCacheChange => onForm session (handleUseCacheChange session.form)
  | .debugModeChange => onForm session (handleDebugModeChange session.form)
  | .appPackageChange files => onForm session (handleAppPackageChange session.form files)
  | .cacheFetched appCommand testCommand =>
      if session.page.currentTab = .application then
        let hit := cacheHit session.form appCommand testCommand
        render { session with form := hit.1 } (session.page.flush hit.2)
      else session
  | .lateCacheFetched state => render session (session.page.flush [.appState state])
  | .submit =>
      if session.form.submitButtonDisabledState then session
      else onForm session (handleSubmit session.page session.form)
  | .uploadAnswered index accepted => answerUpload session index accepted
  | .analyticsHandled index => handleAnalytics session index
  | .responseArrives index results => deliverResponse session index results
  | .responseUnusable index => { session with awaiting := session.awaiting.eraseIdx index }

theorem get_metrics_frame (session : Session) (inst : Nat) :
    ∃ analytics, getMetrics session inst = { session with analytics := analytics } := by
  rw [getMetrics]
  split
  · split
    · exact ⟨session.analytics, rfl⟩
    · exact ⟨_, rfl⟩
  · exact ⟨session.analytics, rfl⟩

theorem did_mount_frame (session : Session) (inst : Nat) :
    ∃ uploads analytics canvas,
      componentDidMount session inst = { session with uploads := uploads, analytics := analytics, canvas := canvas } := by
  rw [componentDidMount]
  split
  · split
    · obtain ⟨analytics, sent⟩ := get_metrics_frame session inst
      exact ⟨session.uploads, analytics, session.canvas, sent⟩
    · split
      · exact ⟨session.uploads, session.analytics, session.canvas, rfl⟩
      · exact ⟨_, session.analytics, session.canvas, rfl⟩
  · split
    · exact ⟨session.uploads, session.analytics, session.canvas, rfl⟩
    · exact ⟨session.uploads, session.analytics, _, rfl⟩

theorem did_mount_page (session : Session) (inst : Nat) : (componentDidMount session inst).page = session.page := by
  obtain ⟨uploads, analytics, canvas, same⟩ := did_mount_frame session inst
  rw [same]

theorem did_mount_mounted (session : Session) (inst : Nat) :
    (componentDidMount session inst).mounted = session.mounted := by
  obtain ⟨uploads, analytics, canvas, same⟩ := did_mount_frame session inst
  rw [same]

theorem did_mount_instances (session : Session) (inst : Nat) :
    (componentDidMount session inst).instances = session.instances := by
  obtain ⟨uploads, analytics, canvas, same⟩ := did_mount_frame session inst
  rw [same]

theorem render_page (session : Session) (page : PageState) : (render session page).page = page := by
  rw [render]
  split
  · rfl
  · cases page.currentTab with
    | application => rfl
    | tests => rfl
    | results => exact did_mount_page _ _

theorem render_same (session : Session) (page : PageState) (same : page.currentTab = session.page.currentTab) :
    render session page = { session with page := page } := if_pos same

theorem render_mounts (session : Session) (page : PageState) (away : session.page.currentTab ≠ .results)
    (shown : page.currentTab = .results) :
    render session page = componentDidMount (mount session page) session.instances := by
  rw [render, if_neg (by rw [shown]; exact away.symm), shown]

def clickedPage (page : PageState) (tab : Tab) : PageState :=
  { page with currentTab := tab, analyze := if tab = .results then false else page.analyze }

theorem tab_click_step (session : Session) (tab : Tab) :
    sessionStep session (.tabClick tab) = render session (clickedPage session.page tab) := by
  cases tab <;> rfl

theorem tab_click_page (session : Session) (tab : Tab) :
    (sessionStep session (.tabClick tab)).page = clickedPage session.page tab := by
  rw [tab_click_step, render_page]

theorem tab_click_same (session : Session) :
    sessionStep session (.tabClick session.page.currentTab) =
      { session with page := clickedPage session.page session.page.currentTab } := by
  rw [tab_click_step]
  exact render_same _ _ rfl

theorem tab_click_leaves (session : Session) (tab : Tab) (another : tab ≠ session.page.currentTab)
    (hidden : tab ≠ .results) :
    ∃ form, sessionStep session (.tabClick tab) =
      { session with page := clickedPage session.page tab, form := form, mounted := none, canvas := none } := by
  have changed : ¬ (clickedPage session.page tab).currentTab = session.page.currentTab := another
  rw [tab_click_step, render, if_neg changed]
  cases tab with
  | application => exact ⟨initialForm session.page.appState, rfl⟩
  | tests => exact ⟨session.form, rfl⟩
  | results => exact absurd rfl hidden

theorem tab_click_mounts (session : Session) (away : session.page.currentTab ≠ .results) :
    sessionStep session (.tabClick .results) =
      componentDidMount (mount session (clickedPage session.page .results)) session.instances := by
  rw [tab_click_step, render_mounts _ _ away rfl]

def canSubmit (session : Session) : Bool :=
  session.page.currentTab = .application && !session.form.submitButtonDisabledState

def submittedPage (page : PageState) (form : AppForm) : PageState :=
  { page with
    currentTab := .results
    analyze := !page.analyze
    appState := some ⟨form.appCommand, form.testCommand, form.debugMode, form.useCache⟩
    submitted := ⟨form.appCommand, form.testCommand, form.debugMode, form.useCache⟩ }

theorem submit_step (session : Session) :
    sessionStep session .submit =
      if canSubmit session then
        componentDidMount (mount session (submittedPage session.page session.form)) session.instances
      else session := by
  unfold sessionStep onForm applyQueued canSubmit
  cases disabled : session.form.submitButtonDisabledState with
  | true => simp
  | false =>
      by_cases shown : session.page.currentTab = .application
      · have away : session.page.currentTab ≠ .results := by rw [shown]; decide
        simp only [shown, Bool.false_eq_true, if_false, if_true, decide_true, Bool.not_false, Bool.and_self]
        exact render_mounts session (submittedPage session.page session.form) away rfl
      · simp [shown]

def SessionEvent.edits : SessionEvent → Bool
  | .appCommandChange _ => true
  | .testCommandChange _ => true
  | .useCacheChange => true
  | .debugModeChange => true
  | .appPackageChange _ => true
  | .cacheFetched _ _ => true
  | .lateCacheFetched _ => true
  | _ => false

-- What an edit can reach: the form, the page's copy of it and the selected files,
-- and these only while the form is shown.
theorem edit_step (session : Session) (event : SessionEvent) (edits : event.edits = true) :
    ∃ form appState files,
      sessionStep session event =
        { session with form := form, page := { session.page with appState := appState, fileToUpload := files } } ∧
      (session.page.currentTab ≠ .application → files = session.page.fileToUpload) := by
  have queued (updates : List FormUpdate) (state : AppState) :
      ∃ form appState files, onForm session ⟨updates, [.appState state]⟩ =
        { session with form := form, page := { session.page with appState := appState, fileToUpload := files } } ∧
        (session.page.currentTab ≠ .application → files = session.page.fileToUpload) := by
    by_cases shown : session.page.currentTab = .application
    · exact ⟨_, some state, session.page.fileToUpload, (if_pos shown).trans (render_same _ _ rfl), fun _ => rfl⟩
    · exact ⟨session.form, session.page.appState, session.page.fileToUpload, if_neg shown, fun _ => rfl⟩
  cases event with
  | appCommandChange value => exact queued [.appCommand value] _
  | testCommandChange value => exact queued [.testCommand value] _
  | useCacheChange => exact queued [.useCache (!session.form.useCache)] _
  | debugModeChange => exact queued [.debugMode (!session.form.debugMode)] _
  | appPackageChange files =>
      by_cases shown : session.page.currentTab = .application
      · exact ⟨_, _, some files, (if_pos shown).trans (render_same _ _ rfl), fun away => absurd shown away⟩
      · exact ⟨session.form, session.page.appState, session.page.fileToUpload, if_neg shown, fun _ => rfl⟩
  | cacheFetched appCommand testCommand =>
      by_cases shown : session.page.currentTab = .application
      · exact ⟨_, _, session.page.fileToUpload, (if_pos shown).trans (render_same _ _ rfl), fun _ => rfl⟩
      · exact ⟨session.form, session.page.appState, session.page.fileToUpload, if_neg shown, fun _ => rfl⟩
  | lateCacheFetched state => exact ⟨session.form, some state, session.page.fileToUpload, render_same _ _ rfl, fun _ => rfl⟩
  | tabClick tab => cases edits
  | submit => cases edits
  | uploadAnswered index accepted => cases edits
  | analyticsHandled index => cases edits
  | responseArrives index results => cases edits
  | responseUnusable index => cases edits

theorem handle_upload_frame (session : Session) (inst : Nat) (files : FileList) (accepted : Bool) :
    ∃ analytics completed, handleUploadAnswer session inst files accepted =
      { session with analytics := analytics, completed := completed } := by
  unfold handleUploadAnswer
  split
  · rename_i file _
    obtain ⟨analytics, same⟩ := get_metrics_frame { session with completed := file.name :: session.completed } inst
    exact ⟨analytics, file.name :: session.completed, same⟩
  · exact ⟨session.analytics, session.completed, rfl⟩
  · obtain ⟨analytics, same⟩ := get_metrics_frame session inst
    exact ⟨analytics, session.completed, same⟩

theorem upload_answer_frame (session : Session) (index : Nat) (accepted : Bool) :
    ∃ uploads analytics completed, answerUpload session index accepted =
      { session with uploads := uploads, analytics := analytics, completed := completed } := by
  rw [answerUpload]
  split
  · exact ⟨session.uploads, session.analytics, session.completed, rfl⟩
  · rename_i inst files _
    obtain ⟨analytics, completed, same⟩ :=
      handle_upload_frame { session with uploads := session.uploads.eraseIdx index } inst files accepted
    exact ⟨session.uploads.eraseIdx index, analytics, completed, same⟩

theorem analytics_frame (session : Session) (index : Nat) :
    ∃ analytics awaiting cacheFile, handleAnalytics session index =
      { session with analytics := analytics, awaiting := awaiting, cacheFile := cacheFile } := by
  rw [handleAnalytics]
  split
  · exact ⟨session.analytics, session.awaiting, session.cacheFile, rfl⟩
  · exact ⟨_, _, _, rfl⟩

theorem response_frame (session : Session) (index : Nat) (results : Results) :
    ∃ awaiting canvas stored, deliverResponse session index results =
      { session with awaiting := awaiting, canvas := canvas, page := { session.page with resultsState := stored } } := by
  rw [deliverResponse]
  split
  · exact ⟨session.awaiting, session.canvas, session.page.resultsState, rfl⟩
  · rw [handleResponse]
    split
    · exact ⟨_, session.canvas, session.page.resultsState, rfl⟩
    · exact ⟨_, _, some results, render_same _ _ rfl⟩

-- Tab clicks and submissions apart, no event touches what decides the next mount.
structure Quiet (session next : Session) : Prop where
  tab : next.page.currentTab = session.page.currentTab
  analyze : next.page.analyze = session.page.analyze
  submitted : next.page.submitted = session.page.submitted
  mounted : next.mounted = session.mounted
  instances : next.instances = session.instances

def SessionEvent.navigates : SessionEvent → Bool
  | .tabClick _ => true
  | .submit => true
  | _ => false

theorem quiet_step (session : Session) (event : SessionEvent) (stays : event.navigates = false) :
    Quiet session (sessionStep session event) := by
  have edited (edits : event.edits = true) : Quiet session (sessionStep session event) := by
    obtain ⟨form, appState, files, same, _⟩ := edit_step session event edits
    rw [same]
    exact ⟨rfl, rfl, rfl, rfl, rfl⟩
  cases event with
  | tabClick tab => cases stays
  | submit => cases stays
  | uploadAnswered index accepted =>
      obtain ⟨uploads, analytics, completed, same⟩ := upload_answer_frame session index accepted
      rw [sessionStep, same]
      exact ⟨rfl, rfl, rfl, rfl, rfl⟩
  | analyticsHandled index =>
      obtain ⟨analytics, awaiting, cacheFile, same⟩ := analytics_frame session index
      rw [sessionStep, same]
      exact ⟨rfl, rfl, rfl, rfl, rfl⟩
  | responseArrives index results =>
      obtain ⟨awaiting, canvas, stored, same⟩ := response_frame session index results
      rw [sessionStep, same]
      exact ⟨rfl, rfl, rfl, rfl, rfl⟩
  | responseUnusable index => exact ⟨rfl, rfl, rfl, rfl, rfl⟩
  | _ => exact edited rfl

inductive MountChange (session next : Session) : Prop where
  | kept (mounted : next.mounted = session.mounted) (instances : next.instances = session.instances)
      (tab : next.page.currentTab = session.page.currentTab)
  | mounts (mounted : next.mounted = some session.instances) (instances : next.instances = session.instances + 1)
      (tab : next.page.currentTab = .results)
  | leaves (mounted : next.mounted = none) (instances : next.instances = session.instances)
      (tab : next.page.currentTab ≠ .results)

theorem did_mount_changes (session : Session) (page : PageState) (shown : page.currentTab = .results) :
    MountChange session (componentDidMount (mount session page) session.instances) := by
  apply MountChange.mounts
  · exact did_mount_mounted _ _
  · exact did_mount_instances _ _
  · rw [did_mount_page]
    exact shown

theorem quiet_keeps (session next : Session) (quiet : Quiet session next) : MountChange session next :=
  .kept quiet.mounted quiet.instances quiet.tab

theorem mount_change (session : Session) (event : SessionEvent) : MountChange session (sessionStep session event) := by
  cases event with
  | submit =>
      rw [submit_step]
      split
      · exact did_mount_changes session _ rfl
      · exact .kept rfl rfl rfl
  | tabClick tab =>
      by_cases same : tab = session.page.currentTab
      · subst same
        rw [tab_click_same]
        exact .kept rfl rfl rfl
      · by_cases results : tab = .results
        · subst results
          rw [tab_click_mounts session (Ne.symm same)]
          exact did_mount_changes session _ rfl
        · obtain ⟨form, left⟩ := tab_click_leaves session tab same results
          rw [left]
          exact .leaves rfl rfl results
  | _ => exact quiet_keeps session _ (quiet_step session _ rfl)

structure MountValid (session : Session) : Prop where
  shown : session.mounted.isSome = true ↔ session.page.currentTab = .results
  fresh : ∀ inst, session.mounted = some inst → inst < session.instances

theorem mount_valid_start : MountValid startSession := by
  refine ⟨by decide, ?_⟩
  intro inst mounted
  cases mounted

theorem mount_valid_step (session : Session) (event : SessionEvent) (valid : MountValid session) :
    MountValid (sessionStep session event) := by
  cases mount_change session event with
  | kept mounted instances tab =>
      refine ⟨?_, ?_⟩
      · rw [mounted, tab]
        exact valid.shown
      · rw [mounted, instances]
        exact valid.fresh
  | mounts mounted instances tab =>
      refine ⟨by simp [mounted, tab], ?_⟩
      intro inst here
      rw [mounted, Option.some.injEq] at here
      omega
  | leaves mounted instances tab =>
      refine ⟨by simp [mounted, tab], ?_⟩
      intro inst here
      rw [mounted] at here
      cases here

def chosenPackage : SessionEvent := .appPackageChange [⟨"app.tar.gz".toList, by decide⟩]

end AppFit.Browser
