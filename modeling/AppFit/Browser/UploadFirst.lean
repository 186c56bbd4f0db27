import AppFit.Browser.Session

/- Builds and uploads. The browser decides from the checkbox alone whether to
   upload the package, the server decides from the checkbox and its cache whether
   to build; a session runs both. -/
set_option autoImplicit false

namespace AppFit.Browser

open AppFit.Server AppFit.Runs

def BuildsUploaded (session : Session) (event : SessionEvent) : Prop :=
  ∀ index inst request, event = .analyticsHandled index → session.analytics[index]? = some (inst, request) →
    launchable request = true → performsBuild (handlerWords session.cacheFile request) = true →
    request.appPackage ∈ session.completed

def CachedUploaded (session : Session) (event : SessionEvent) : Prop :=
  ∀ index inst request, event = .analyticsHandled index → session.analytics[index]? = some (inst, request) →
    launchable request = true → request.useCache = true → request.appPackage ∈ session.completed

-- An upload in flight is of the files its instance still shows; a request made
-- without the cache, and a cached entry, are of a package that was uploaded.
structure UploadsTracked (session : Session) : Prop extends MountValid session where
  selected : ∀ inst files, (inst, files) ∈ session.uploads →
    inst < session.instances ∧ (session.mounted = some inst → session.page.fileToUpload = some files)
  named : ∀ inst request, (inst, request) ∈ session.analytics → request.appPackage ≠ []
  uploaded : ∀ inst request, (inst, request) ∈ session.analytics → request.useCache = false →
    request.appPackage ∈ session.completed
  cached : ∀ request : Request, launchable request = true →
    (loadCache session.cacheFile).lookup request.appPackage = some (request.appCommand, request.testCommand) →
    request.appPackage ∈ session.completed

theorem tracked_start : UploadsTracked startSession := by
  refine ⟨mount_valid_start, ?_, ?_, ?_, ?_⟩
  · intro inst files member
    cases member
  · intro inst request member
    cases member
  · intro inst request member
    cases member
  · intro request _ entry
    cases entry

theorem builds_uploaded_agree (session : Session) (event : SessionEvent) (tracked : UploadsTracked session) :
    BuildsUploaded session event ↔ CachedUploaded session event := by
  constructor
  · intro builds index inst request handled found launched useCache
    have member := List.mem_of_getElem? found
    cases skips : skipsBuild session.cacheFile request with
    | true => exact tracked.cached request launched (skips_build_hit session.cacheFile request skips)
    | false =>
        apply builds index inst request handled found launched
        rw [handlerWords, performs_build_iff request _ (tracked.named inst request member), skips]
        rfl
  · intro condition index inst request handled found launched _
    cases useCache : request.useCache with
    | true => exact condition index inst request handled found launched useCache
    | false => exact tracked.uploaded inst request (List.mem_of_getElem? found) useCache

theorem tracked_of_fewer (session next : Session) (tracked : UploadsTracked session) (valid : MountValid next)
    (uploads : ∀ entry ∈ next.uploads, entry ∈ session.uploads)
    (analytics : ∀ entry ∈ next.analytics, entry ∈ session.analytics)
    (completed : ∀ name ∈ session.completed, name ∈ next.completed) (cacheFile : next.cacheFile = session.cacheFile)
    (instances : session.instances ≤ next.instances)
    (kept : ∀ inst < session.instances, next.mounted = some inst →
      session.mounted = some inst ∧ next.page.fileToUpload = session.page.fileToUpload) : UploadsTracked next := by
  refine ⟨valid, ?_, ?_, ?_, ?_⟩
  · intro inst files member
    obtain ⟨used, same⟩ := tracked.selected inst files (uploads _ member)
    refine ⟨Nat.lt_of_lt_of_le used instances, ?_⟩
    intro mounted
    obtain ⟨before, unchanged⟩ := kept inst used mounted
    rw [unchanged]
    exact same before
  · intro inst request member
    exact tracked.named inst request (analytics _ member)
  · intro inst request member noCache
    exact completed _ (tracked.uploaded inst request (analytics _ member) noCache)
  · intro request launched entry
    rw [cacheFile] at entry
    exact completed _ (tracked.cached request launched entry)

theorem get_metrics_request (session : Session) (inst : Nat) (entry : Nat × Request)
    (member : entry ∈ (getMetrics session inst).analytics) :
    entry ∈ session.analytics ∨
      session.mounted = some inst ∧ ∃ file, session.page.fileToUpload.bind List.head? = some file ∧
        entry.2.appPackage = file.name ∧ entry.2.useCache = session.page.submitted.useCache := by
  rw [getMetrics] at member
  split at member
  · rename_i mounted
    split at member
    · exact .inl member
    · rename_i file selected
      rcases List.mem_append.mp member with before | sent
      · exact .inl before
      · cases List.mem_singleton.mp sent
        exact .inr ⟨mounted, file, selected, rfl, rfl⟩
  · exact .inl member

theorem tracked_metrics (session : Session) (inst : Nat) (tracked : UploadsTracked session)
    (backed : session.mounted = some inst → ∀ file, session.page.fileToUpload.bind List.head? = some file →
      session.page.submitted.useCache = false → file.name ∈ session.completed) :
    UploadsTracked (getMetrics session inst) := by
  have requests := get_metrics_request session inst
  obtain ⟨analytics, same⟩ := get_metrics_frame session inst
  rw [same] at requests ⊢
  refine ⟨⟨tracked.shown, tracked.fresh⟩, tracked.selected, ?_, ?_, tracked.cached⟩
  · intro sender request member
    rcases requests (sender, request) member with before | ⟨_, file, _, name, _⟩
    · exact tracked.named sender request before
    · exact name ▸ file.nonempty
  · intro sender request member noCache
    rcases requests (sender, request) member with before | ⟨mounted, file, selected, name, useCache⟩
    · exact tracked.uploaded sender request before noCache
    · exact name ▸ backed mounted file selected (useCache ▸ noCache)

theorem tracked_mount (session : Session) (page : PageState) (tracked : UploadsTracked session)
    (shown : page.currentTab = .results) : UploadsTracked (mount session page) := by
  apply tracked_of_fewer session (mount session page) tracked
  · refine ⟨⟨fun _ => shown, fun _ => rfl⟩, ?_⟩
    intro inst mounted
    cases mounted
    exact Nat.lt_succ_self session.instances
  · exact fun _ member => member
  · exact fun _ member => member
  · exact fun _ member => member
  · rfl
  · exact Nat.le_succ session.instances
  · intro inst used mounted
    cases mounted
    exact absurd used (Nat.lt_irrefl session.instances)

theorem tracked_did_mount (session : Session) (page : PageState) (tracked : UploadsTracked session)
    (shown : page.currentTab = .results) :
    UploadsTracked (componentDidMount (mount session page) session.instances) := by
  have mounted := tracked_mount session page tracked shown
  rw [componentDidMount]
  split
  · split
    · rename_i useCache
      apply tracked_metrics _ _ mounted
      intro _ file _ noCache
      rw [useCache] at noCache
      cases noCache
    · split
      · exact mounted
      · rename_i files selected
        refine ⟨⟨mounted.shown, mounted.fresh⟩, ?_, mounted.named, mounted.uploaded, mounted.cached⟩
        intro inst sent member
        rcases List.mem_append.mp member with before | here
        · exact mounted.selected inst sent before
        · cases List.mem_singleton.mp here
          exact ⟨Nat.lt_succ_self session.instances, fun _ => selected⟩
  · split
    · exact mounted
    · exact ⟨⟨mounted.shown, mounted.fresh⟩, mounted.selected, mounted.named, mounted.uploaded, mounted.cached⟩

theorem tracked_tab_click (session : Session) (tab : Tab) (tracked : UploadsTracked session) :
    UploadsTracked (sessionStep session (.tabClick tab)) := by
  by_cases same : tab = session.page.currentTab
  · subst same
    rw [tab_click_same]
    exact ⟨⟨tracked.shown, tracked.fresh⟩, tracked.selected, tracked.named, tracked.uploaded, tracked.cached⟩
  · by_cases results : tab = .results
    · subst results
      rw [tab_click_mounts session (Ne.symm same)]
      exact tracked_did_mount session _ tracked rfl
    · have valid := mount_valid_step session (.tabClick tab) tracked.toMountValid
      obtain ⟨form, left⟩ := tab_click_leaves session tab same results
      rw [left] at valid ⊢
      refine ⟨valid, ?_, tracked.named, tracked.uploaded, tracked.cached⟩
      intro inst files member
      refine ⟨(tracked.selected inst files member).1, ?_⟩
      intro mounted
      cases mounted

theorem tracked_edit (session : Session) (event : SessionEvent) (tracked : UploadsTracked session)
    (edits : event.edits = true) : UploadsTracked (sessionStep session event) := by
  obtain ⟨form, appState, files, same, unchanged⟩ := edit_step session event edits
  rw [same]
  refine ⟨⟨tracked.shown, tracked.fresh⟩, ?_, tracked.named, tracked.uploaded, tracked.cached⟩
  intro inst sent member
  obtain ⟨used, selected⟩ := tracked.selected inst sent member
  refine ⟨used, ?_⟩
  intro mounted
  have shown := tracked.shown.mp (by rw [mounted]; rfl)
  have away : session.page.currentTab ≠ .application := by
    rw [shown]
    decide
  exact (unchanged away).trans (selected mounted)

theorem tracked_handle_upload (session : Session) (inst : Nat) (files : FileList) (accepted : Bool)
    (tracked : UploadsTracked session) (selected : session.mounted = some inst → session.page.fileToUpload = some files) :
    UploadsTracked (handleUploadAnswer session inst files accepted) := by
  unfold handleUploadAnswer
  split
  · rename_i stored first
    have completed : UploadsTracked { session with completed := stored.name :: session.completed } :=
      tracked_of_fewer session _ tracked ⟨tracked.shown, tracked.fresh⟩ (fun _ member => member)
        (fun _ member => member) (fun _ member => List.mem_cons_of_mem _ member) rfl (Nat.le_refl _)
        (fun _ _ mounted => ⟨mounted, rfl⟩)
    apply tracked_metrics _ _ completed
    intro mounted file chosen _
    have same : some stored = some file := by
      rw [← first, ← chosen]
      simp only [selected mounted, Option.bind_some]
    cases same
    exact List.mem_cons_self
  · exact tracked
  · rename_i empty
    apply tracked_metrics _ _ tracked
    intro mounted file chosen _
    rw [selected mounted, Option.bind_some, empty] at chosen
    cases chosen

theorem tracked_upload_answer (session : Session) (index : Nat) (accepted : Bool) (tracked : UploadsTracked session) :
    UploadsTracked (answerUpload session index accepted) := by
  rw [answerUpload]
  split
  · exact tracked
  · rename_i inst files found
    have member := List.mem_of_getElem? found
    apply tracked_handle_upload
    · exact tracked_of_fewer session _ tracked ⟨tracked.shown, tracked.fresh⟩
        (fun _ member => List.mem_of_mem_eraseIdx member) (fun _ member => member) (fun _ member => member) rfl
        (Nat.le_refl _) (fun _ _ mounted => ⟨mounted, rfl⟩)
    · exact (tracked.selected inst files member).2

theorem tracked_analytics (session : Session) (index : Nat) (tracked : UploadsTracked session)
    (uploaded : CachedUploaded session (.analyticsHandled index)) : UploadsTracked (handleAnalytics session index) := by
  rw [handleAnalytics]
  split
  · exact tracked
  · rename_i inst handled found
    refine ⟨⟨tracked.shown, tracked.fresh⟩, tracked.selected, ?_, ?_, ?_⟩
    · intro sender request member
      exact tracked.named sender request (List.mem_of_mem_eraseIdx member)
    · intro sender request member
      exact tracked.uploaded sender request (List.mem_of_mem_eraseIdx member)
    · intro request launched entry
      rw [nextCache, load_add_entry] at entry
      split at entry
      · rename_i same
        -- The new entry is of the handled request, which a launchable request can hit only
        -- if it was launchable itself.
        rw [Option.some.injEq, Prod.mk.injEq] at entry
        have launchedHere : launchable handled = true := by
          simpa only [launchable, same, entry.1, entry.2] using launched
        rw [same]
        cases useCache : handled.useCache with
        | true => exact uploaded index inst handled rfl found launchedHere useCache
        | false => exact tracked.uploaded inst handled (List.mem_of_getElem? found) useCache
      · exact tracked.cached request launched entry

theorem tracked_response (session : Session) (index : Nat) (results : Results) (tracked : UploadsTracked session) :
    UploadsTracked (deliverResponse session index results) := by
  obtain ⟨awaiting, canvas, stored, same⟩ := response_frame session index results
  rw [same]
  exact ⟨⟨tracked.shown, tracked.fresh⟩, tracked.selected, tracked.named, tracked.uploaded, tracked.cached⟩

theorem tracked_step (session : Session) (event : SessionEvent) (tracked : UploadsTracked session)
    (uploaded : CachedUploaded session event) : UploadsTracked (sessionStep session event) := by
  cases event with
  | tabClick tab => exact tracked_tab_click session tab tracked
  | submit =>
      rw [submit_step]
      split
      · exact tracked_did_mount session _ tracked rfl
      · exact tracked
  | uploadAnswered index accepted => exact tracked_upload_answer session index accepted tracked
  | analyticsHandled index => exact tracked_analytics session index tracked uploaded
  | responseArrives index results => exact tracked_response session index results tracked
  | responseUnusable index =>
      exact ⟨⟨tracked.shown, tracked.fresh⟩, tracked.selected, tracked.named, tracked.uploaded, tracked.cached⟩
  | _ => exact tracked_edit session _ tracked rfl

theorem builds_uploaded_iff (events : List SessionEvent) :
    Along sessionStep BuildsUploaded startSession events ↔ Along sessionStep CachedUploaded startSession events := by
  refine along_iff_of_invariant sessionStep UploadsTracked BuildsUploaded CachedUploaded builds_uploaded_agree ?_
    startSession events tracked_start
  intro session event tracked builds
  exact tracked_step session event tracked ((builds_uploaded_agree session event tracked).mp builds)

-- The form starts with the cache in use: the package is built without having been uploaded.
def firstUse : List SessionEvent :=
  [chosenPackage, .appCommandChange "./serve".toList, .submit, .analyticsHandled 0]

theorem first_use_not_uploaded : ¬ Along sessionStep BuildsUploaded startSession firstUse := by
  intro builds
  have uploaded := builds.2.2.2.1 0 0 ⟨"app.tar.gz".toList, "./serve".toList, [], true, false⟩ rfl (by decide)
    (by decide) (by decide)
  exact absurd uploaded (by decide)

end AppFit.Browser
