import AppFit.Browser.Session

/- The requests that a session sends: which instance of ResultsForm sends one, how
   often, and with which fields. The log is ghost state beside the session. -/
set_option autoImplicit false

namespace AppFit.Browser

open AppFit.Shell AppFit.Server AppFit.Runs

-- The data of the request that getMetrics would send from the props of now.
def pageRequest (page : PageState) : Option Request :=
  (page.fileToUpload.bind List.head?).map fun file =>
    { appPackage := file.name
      appCommand := page.submitted.appCommand
      testCommand := page.submitted.testCommand
      useCache := page.submitted.useCache
      debugMode := page.submitted.debugMode }

structure Log where
  submissions : List (Nat × Option Request)
  sent : List (Nat × Request)

-- A submission is known by the instance it mounts, and asks for the request made
-- of the form as it was then; none when no file was chosen.
def submissionOf (session : Session) (event : SessionEvent) : List (Nat × Option Request) :=
  if event = .submit ∧ canSubmit session then
    [(session.instances, pageRequest (submittedPage session.page session.form))]
  else []

def emitted (session : Session) (event : SessionEvent) : List (Nat × Request) :=
  (sessionStep session event).analytics.drop session.analytics.length

def loggedStep (state : Session × Log) (event : SessionEvent) : Session × Log :=
  (sessionStep state.1 event,
    ⟨state.2.submissions ++ submissionOf state.1 event, state.2.sent ++ emitted state.1 event⟩)

def loggedRun (events : List SessionEvent) : Session × Log := run loggedStep (startSession, ⟨[], []⟩) events

-- Everything a step can do with requests and uploads.
inductive RequestChange (session next : Session) : List (Nat × Option Request) → List (Nat × Request) → Prop where
  | keeps (uploads : next.uploads.Sublist session.uploads) (instances : session.instances ≤ next.instances)
      (kept : ∀ inst < session.instances, next.mounted = some inst →
        session.mounted = some inst ∧ pageRequest next.page = pageRequest session.page) : RequestChange session next [] []
  | submits (mounted : next.mounted = some session.instances) (instances : next.instances = session.instances + 1)
      (uploads : next.uploads = session.uploads) (sent : List Request)
      (asked : ∀ request ∈ sent, pageRequest next.page = some request) (once : sent.length ≤ 1) :
      RequestChange session next [(session.instances, pageRequest next.page)] (sent.map (session.instances, ·))
  | uploads (files : FileList) (mounted : next.mounted = some session.instances)
      (instances : next.instances = session.instances + 1)
      (uploads : next.uploads = session.uploads ++ [(session.instances, files)]) :
      RequestChange session next [(session.instances, pageRequest next.page)] []
  | answers (inst : Nat) (files : FileList) (index : Nat) (found : session.uploads[index]? = some (inst, files))
      (uploads : next.uploads = session.uploads.eraseIdx index) (instances : next.instances = session.instances)
      (mounted : next.mounted = session.mounted) (page : next.page = session.page) (request : Request)
      (shown : session.mounted = some inst) (asked : pageRequest session.page = some request) :
      RequestChange session next [] [(inst, request)]

theorem get_metrics_eq (session : Session) (inst : Nat) :
    getMetrics session inst =
      { session with
        analytics := session.analytics ++
          if session.mounted = some inst then (pageRequest session.page).toList.map (inst, ·) else [] } := by
  rw [getMetrics]
  split
  · rw [pageRequest]
    cases session.page.fileToUpload.bind List.head? with
    | none => simp
    | some file => rfl
  · simp

theorem emitted_append (session : Session) (event : SessionEvent) (new : List (Nat × Request))
    (grown : (sessionStep session event).analytics = session.analytics ++ new) : emitted session event = new := by
  rw [emitted, grown, List.drop_left]

theorem emitted_fewer (session : Session) (event : SessionEvent)
    (fewer : (sessionStep session event).analytics.length ≤ session.analytics.length) : emitted session event = [] := by
  rw [emitted, List.drop_eq_nil_of_le fewer]

-- Mounting for a submission: at once, through an upload, or not at all.
theorem did_mount_requests (session : Session) (page : PageState) :
    let next := componentDidMount (mount session page) session.instances
    (∃ sent : List Request, next.analytics = session.analytics ++ sent.map (session.instances, ·) ∧
        next.uploads = session.uploads ∧ (∀ request ∈ sent, pageRequest page = some request) ∧ sent.length ≤ 1 ∧
        (page.analyze = false → sent = [])) ∨
      ∃ files, next.analytics = session.analytics ∧ next.uploads = session.uploads ++ [(session.instances, files)] ∧
        page.analyze = true := by
  intro next
  have mounted : (mount session page).mounted = some session.instances := rfl
  simp only [next, componentDidMount]
  split
  · rename_i analyze
    split
    · refine .inl ⟨(pageRequest page).toList, ?_, ?_, ?_, ?_, ?_⟩
      · rw [get_metrics_eq, if_pos mounted]
        rfl
      · rw [get_metrics_eq]
        rfl
      · simp
      · cases pageRequest page <;> simp
      · intro quiet
        rw [show page.analyze = true from analyze] at quiet
        cases quiet
    · split
      · exact .inl ⟨[], by simp [mount], rfl, by simp, by simp, fun _ => rfl⟩
      · rename_i files _
        exact .inr ⟨files, rfl, rfl, analyze⟩
  · split
    · exact .inl ⟨[], by simp [mount], rfl, by simp, by simp, fun _ => rfl⟩
    · exact .inl ⟨[], by simp [mount], rfl, by simp, by simp, fun _ => rfl⟩

theorem change_submit (session : Session) :
    RequestChange session (sessionStep session .submit) (submissionOf session .submit) (emitted session .submit) := by
  cases able : canSubmit session with
  | false =>
      have idle : sessionStep session .submit = session := by rw [submit_step, able]; rfl
      have quiet : emitted session .submit = [] := emitted_fewer session .submit (by rw [idle])
      rw [submissionOf, if_neg (by simp [able]), quiet, idle]
      exact .keeps (.refl _) (Nat.le_refl _) fun _ _ mounted => ⟨mounted, rfl⟩
  | true =>
      have step : sessionStep session .submit =
          componentDidMount (mount session (submittedPage session.page session.form)) session.instances := by
        rw [submit_step, able]; rfl
      have page : (sessionStep session .submit).page = submittedPage session.page session.form := by
        rw [step, did_mount_page]; rfl
      have mounted : (sessionStep session .submit).mounted = some session.instances := by
        rw [step, did_mount_mounted]; rfl
      have instances : (sessionStep session .submit).instances = session.instances + 1 := by
        rw [step, did_mount_instances]; rfl
      rw [submissionOf, if_pos ⟨rfl, able⟩, ← page]
      rcases did_mount_requests session (submittedPage session.page session.form) with
        ⟨sent, analytics, uploads, asked, once, _⟩ | ⟨files, analytics, uploads, _⟩
      · rw [← step] at analytics uploads
        rw [emitted_append session .submit _ analytics]
        exact .submits mounted instances uploads sent (by rwa [page]) once
      · rw [← step] at analytics uploads
        rw [emitted_fewer session .submit (by rw [analytics])]
        exact .uploads files mounted instances uploads

theorem change_tab_click (session : Session) (tab : Tab) :
    RequestChange session (sessionStep session (.tabClick tab)) [] (emitted session (.tabClick tab)) := by
  by_cases same : tab = session.page.currentTab
  · have step := tab_click_same session
    rw [← same] at step
    rw [emitted_fewer session (.tabClick tab) (by rw [step]), step]
    exact .keeps (.refl _) (Nat.le_refl _) fun _ _ mounted => ⟨mounted, rfl⟩
  · by_cases results : tab = .results
    · subst results
      have step := tab_click_mounts session (Ne.symm same)
      have mounted : (sessionStep session (.tabClick .results)).mounted = some session.instances := by
        rw [step, did_mount_mounted]; rfl
      have instances : (sessionStep session (.tabClick .results)).instances = session.instances + 1 := by
        rw [step, did_mount_instances]; rfl
      -- The click has cleared the flag, so that nothing is sent.
      rcases did_mount_requests session (clickedPage session.page .results) with
        ⟨sent, analytics, uploads, _, _, quiet⟩ | ⟨_, _, _, analyze⟩
      · rw [← step] at analytics uploads
        rw [quiet rfl, List.map_nil] at analytics
        rw [emitted_append session (.tabClick .results) _ analytics]
        refine .keeps (by rw [uploads]) (by omega) fun inst used again => ?_
        rw [mounted, Option.some.injEq] at again
        omega
      · cases analyze
    · obtain ⟨form, step⟩ := tab_click_leaves session tab same results
      rw [emitted_fewer session (.tabClick tab) (by rw [step]), step]
      exact .keeps (.refl _) (Nat.le_refl _) fun _ _ mounted => (by cases mounted)

theorem change_edit (session : Session) (event : SessionEvent) (valid : MountValid session) (edits : event.edits = true) :
    RequestChange session (sessionStep session event) [] (emitted session event) := by
  obtain ⟨form, appState, files, step, unchanged⟩ := edit_step session event edits
  rw [emitted_fewer session event (by rw [step]), step]
  refine .keeps (.refl _) (Nat.le_refl _) fun inst _ mounted => ⟨mounted, ?_⟩
  have shown := valid.shown.mp (by rw [show session.mounted = some inst from mounted]; rfl)
  have away : session.page.currentTab ≠ .application := by
    rw [shown]
    decide
  simp only [pageRequest, unchanged away]

theorem change_metrics (session : Session) (index inst : Nat) (files : FileList) (completed : List Text)
    (found : session.uploads[index]? = some (inst, files)) :
    let next := getMetrics { session with uploads := session.uploads.eraseIdx index, completed := completed } inst
    RequestChange session next [] (next.analytics.drop session.analytics.length) := by
  intro next
  simp only [next, get_metrics_eq, List.drop_left]
  by_cases shown : session.mounted = some inst
  · rw [if_pos shown]
    cases asked : pageRequest session.page with
    | none => exact .keeps (List.eraseIdx_sublist _ _) (Nat.le_refl _) fun _ _ mounted => ⟨mounted, rfl⟩
    | some request =>
        refine .answers inst files index found ?_ ?_ ?_ ?_ request shown asked <;> rfl
  · rw [if_neg shown]
    exact .keeps (List.eraseIdx_sublist _ _) (Nat.le_refl _) fun _ _ mounted => ⟨mounted, rfl⟩

theorem change_upload_answer (session : Session) (index : Nat) (accepted : Bool) :
    RequestChange session (sessionStep session (.uploadAnswered index accepted)) []
      (emitted session (.uploadAnswered index accepted)) := by
  rw [emitted, sessionStep, answerUpload]
  cases found : session.uploads[index]? with
  | none =>
      rw [List.drop_length]
      exact .keeps (.refl _) (Nat.le_refl _) fun _ _ mounted => ⟨mounted, rfl⟩
  | some upload =>
      obtain ⟨inst, files⟩ := upload
      simp only [handleUploadAnswer]
      split
      · exact change_metrics session index inst files _ found
      · rw [List.drop_length]
        exact .keeps (List.eraseIdx_sublist _ _) (Nat.le_refl _) fun _ _ mounted => ⟨mounted, rfl⟩
      · exact change_metrics session index inst files session.completed found

theorem request_change (session : Session) (event : SessionEvent) (valid : MountValid session) :
    RequestChange session (sessionStep session event) (submissionOf session event) (emitted session event) := by
  cases event with
  | submit => exact change_submit session
  | tabClick tab => exact change_tab_click session tab
  | uploadAnswered index accepted => exact change_upload_answer session index accepted
  | analyticsHandled index =>
      have fewer : (handleAnalytics session index).analytics.length ≤ session.analytics.length := by
        rw [handleAnalytics]
        split
        · exact Nat.le_refl _
        · exact List.length_eraseIdx_le _ _
      rw [emitted_fewer session (.analyticsHandled index) fewer]
      obtain ⟨analytics, awaiting, cacheFile, step⟩ := analytics_frame session index
      rw [sessionStep, step]
      exact .keeps (.refl _) (Nat.le_refl _) fun _ _ mounted => ⟨mounted, rfl⟩
  | responseArrives index results =>
      obtain ⟨awaiting, canvas, stored, step⟩ := response_frame session index results
      rw [emitted_fewer session (.responseArrives index results) (by rw [sessionStep, step]), sessionStep, step]
      exact .keeps (.refl _) (Nat.le_refl _) fun _ _ mounted => ⟨mounted, rfl⟩
  | responseUnusable index =>
      rw [emitted_fewer session (.responseUnusable index) (Nat.le_refl _)]
      exact .keeps (.refl _) (Nat.le_refl _) fun _ _ mounted => ⟨mounted, rfl⟩
  | _ => exact change_edit session _ valid rfl

structure RequestsLogged (session : Session) (log : Log) : Prop extends MountValid session where
  numbered : ∀ inst ∈ log.submissions.map Prod.fst, inst < session.instances
  distinct : (log.submissions.map Prod.fst).Nodup
  current : ∀ inst asked, session.mounted = some inst → (inst, asked) ∈ log.submissions →
    pageRequest session.page = asked
  uploading : ∀ inst ∈ session.uploads.map Prod.fst,
    inst ∈ log.submissions.map Prod.fst ∧ inst ∉ log.sent.map Prod.fst
  uploadsOnce : (session.uploads.map Prod.fst).Nodup
  sentOnce : (log.sent.map Prod.fst).Nodup
  matched : ∀ inst request, (inst, request) ∈ log.sent → (inst, some request) ∈ log.submissions

theorem logged_keeps (session next : Session) (log : Log) (logged : RequestsLogged session log) (valid : MountValid next)
    (uploads : next.uploads.Sublist session.uploads) (instances : session.instances ≤ next.instances)
    (kept : ∀ inst < session.instances, next.mounted = some inst →
      session.mounted = some inst ∧ pageRequest next.page = pageRequest session.page) : RequestsLogged next log := by
  refine ⟨valid, ?_, logged.distinct, ?_, ?_, logged.uploadsOnce.sublist (uploads.map _), logged.sentOnce, logged.matched⟩
  · exact fun inst member => Nat.lt_of_lt_of_le (logged.numbered inst member) instances
  · intro inst asked mounted member
    obtain ⟨before, same⟩ := kept inst (logged.numbered inst (List.mem_map.mpr ⟨_, member, rfl⟩)) mounted
    rw [same]
    exact logged.current inst asked before member
  · exact fun inst member => logged.uploading inst ((uploads.map _).subset member)

theorem logged_submission (session next : Session) (log : Log) (logged : RequestsLogged session log)
    (valid : MountValid next) (mounted : next.mounted = some session.instances)
    (instances : next.instances = session.instances + 1) (uploads : next.uploads = session.uploads) :
    RequestsLogged next ⟨log.submissions ++ [(session.instances, pageRequest next.page)], log.sent⟩ := by
  have unused : session.instances ∉ log.submissions.map Prod.fst := fun member =>
    Nat.lt_irrefl _ (logged.numbered _ member)
  refine ⟨valid, ?_, ?_, ?_, ?_, by rw [uploads]; exact logged.uploadsOnce, logged.sentOnce, ?_⟩
  · intro inst member
    rw [List.map_append, List.mem_append] at member
    rcases member with old | new
    · have := logged.numbered inst old
      omega
    · rw [List.mem_singleton.mp new]
      omega
  · rw [List.map_append, List.nodup_append]
    refine ⟨logged.distinct, List.nodup_singleton _, fun inst old other new same => ?_⟩
    rw [same, List.mem_singleton.mp new] at old
    exact unused old
  · intro inst asked shown member
    rw [mounted, Option.some.injEq] at shown
    subst inst
    rcases List.mem_append.mp member with old | new
    · exact absurd (List.mem_map.mpr ⟨_, old, rfl⟩) unused
    · cases List.mem_singleton.mp new
      rfl
  · intro inst member
    rw [uploads] at member
    obtain ⟨submitted, waiting⟩ := logged.uploading inst member
    exact ⟨by rw [List.map_append]; exact List.mem_append_left _ submitted, waiting⟩
  · exact fun inst request member => List.mem_append_left _ (logged.matched inst request member)

theorem logged_upload (session next : Session) (log : Log) (inst : Nat) (files : FileList)
    (logged : RequestsLogged session log) (same : next = { session with uploads := session.uploads ++ [(inst, files)] })
    (submitted : inst ∈ log.submissions.map Prod.fst) (unsent : inst ∉ log.sent.map Prod.fst)
    (idle : inst ∉ session.uploads.map Prod.fst) : RequestsLogged next log := by
  subst same
  refine ⟨⟨logged.shown, logged.fresh⟩, logged.numbered, logged.distinct, logged.current, ?_, ?_, logged.sentOnce,
    logged.matched⟩
  · intro other member
    rw [List.map_append, List.mem_append] at member
    rcases member with old | new
    · exact logged.uploading other old
    · rw [List.mem_singleton.mp new]
      exact ⟨submitted, unsent⟩
  · rw [List.map_append, List.nodup_append]
    refine ⟨logged.uploadsOnce, List.nodup_singleton _, fun other old key new same => ?_⟩
    rw [same, List.mem_singleton.mp new] at old
    exact idle old

theorem logged_sent (session : Session) (log : Log) (inst : Nat) (request : Request) (logged : RequestsLogged session log)
    (asked : (inst, some request) ∈ log.submissions) (unsent : inst ∉ log.sent.map Prod.fst)
    (idle : inst ∉ session.uploads.map Prod.fst) :
    RequestsLogged session ⟨log.submissions, log.sent ++ [(inst, request)]⟩ := by
  refine ⟨⟨logged.shown, logged.fresh⟩, logged.numbered, logged.distinct, logged.current, ?_, logged.uploadsOnce, ?_, ?_⟩
  · intro other member
    obtain ⟨submitted, waiting⟩ := logged.uploading other member
    refine ⟨submitted, ?_⟩
    rw [List.map_append, List.mem_append, not_or]
    refine ⟨waiting, fun new => ?_⟩
    rw [List.mem_singleton.mp new] at member
    exact idle member
  · rw [List.map_append, List.nodup_append]
    refine ⟨logged.sentOnce, List.nodup_singleton _, fun other old key new same => ?_⟩
    rw [same, List.mem_singleton.mp new] at old
    exact unsent old
  · intro other sent member
    rcases List.mem_append.mp member with old | new
    · exact logged.matched other sent old
    · cases List.mem_singleton.mp new
      exact asked

theorem erased_upload {β : Type} (items : List (Nat × β)) (index key : Nat) (entry : β)
    (distinct : (items.map Prod.fst).Nodup) (found : items[index]? = some (key, entry)) :
    key ∉ (items.eraseIdx index).map Prod.fst := by
  intro member
  obtain ⟨other, kept, same⟩ := List.mem_map.mp member
  obtain ⟨place, another, here⟩ := List.mem_eraseIdx_iff_getElem?.mp kept
  have first : (items.map Prod.fst)[index]? = some key := by rw [List.getElem?_map, found]; rfl
  have second : (items.map Prod.fst)[place]? = some key := by rw [List.getElem?_map, here, Option.map_some, same]
  have inside : place < (items.map Prod.fst).length := (List.getElem?_eq_some_iff.mp second).1
  exact another ((List.getElem?_inj inside distinct).mp (second.trans first.symm))

theorem logged_change (session next : Session) (log : Log) (submissions : List (Nat × Option Request))
    (sent : List (Nat × Request)) (logged : RequestsLogged session log) (valid : MountValid next)
    (change : RequestChange session next submissions sent) :
    RequestsLogged next ⟨log.submissions ++ submissions, log.sent ++ sent⟩ := by
  have unused : session.instances ∉ log.submissions.map Prod.fst := fun member =>
    Nat.lt_irrefl _ (logged.numbered _ member)
  have unsent : session.instances ∉ log.sent.map Prod.fst := by
    intro member
    obtain ⟨⟨inst, request⟩, entry, same⟩ := List.mem_map.mp member
    have here : inst = session.instances := same
    subst here
    exact unused (List.mem_map.mpr ⟨_, logged.matched _ request entry, rfl⟩)
  have idle : session.instances ∉ session.uploads.map Prod.fst := fun member => unused (logged.uploading _ member).1
  cases change with
  | keeps uploads instances kept =>
      rw [List.append_nil, List.append_nil]
      exact logged_keeps session next log logged valid uploads instances kept
  | submits mounted instances uploads requests asked once =>
      have submitted := logged_submission session next log logged valid mounted instances uploads
      match requests, once with
      | [], _ =>
          rw [List.map_nil, List.append_nil]
          exact submitted
      | [request], _ =>
          apply logged_sent next _ session.instances request submitted
          · rw [asked request (List.mem_singleton_self _)]
            exact List.mem_append_right _ (List.mem_singleton_self _)
          · exact unsent
          · rw [uploads]
            exact idle
  | uploads files mounted instances uploads =>
      have submitted := logged_submission session { next with uploads := session.uploads } log logged
        ⟨valid.shown, valid.fresh⟩ mounted instances rfl
      rw [List.append_nil]
      refine logged_upload _ next _ session.instances files submitted (by rw [← uploads]) ?_ unsent idle
      rw [List.map_append]
      exact List.mem_append_right _ (List.mem_singleton_self _)
  | answers inst files index found uploads instances mounted page request shown asked =>
      have kept := logged_keeps session next log logged valid (by rw [uploads]; exact List.eraseIdx_sublist _ _)
        (by rw [instances]) fun _ _ again => ⟨mounted ▸ again, by rw [page]⟩
      obtain ⟨submitted, waiting⟩ := logged.uploading inst (List.mem_map.mpr ⟨_, List.mem_of_getElem? found, rfl⟩)
      obtain ⟨⟨_, known⟩, entry, rfl⟩ := List.mem_map.mp submitted
      have same := logged.current _ known shown entry
      rw [asked] at same
      rw [List.append_nil]
      refine logged_sent next log _ request kept (same ▸ entry) waiting ?_
      rw [uploads]
      exact erased_upload session.uploads index _ files logged.uploadsOnce found

theorem logged_start : RequestsLogged startSession ⟨[], []⟩ := by
  refine ⟨mount_valid_start, ?_, List.nodup_nil, ?_, ?_, List.nodup_nil, List.nodup_nil, ?_⟩
  · exact fun _ member => (by cases member)
  · exact fun _ _ _ member => (by cases member)
  · exact fun _ member => (by cases member)
  · exact fun _ _ member => (by cases member)

theorem logged_run (events : List SessionEvent) : RequestsLogged (loggedRun events).1 (loggedRun events).2 := by
  refine run_invariant loggedStep (fun state => RequestsLogged state.1 state.2) _ events logged_start ?_
  intro state event logged
  exact logged_change state.1 _ state.2 _ _ logged (mount_valid_step state.1 event logged.toMountValid)
    (request_change state.1 event logged.toMountValid)

-- No instance sends twice, and what it sends is what its own submission asked
-- for, however long the upload took and whatever was clicked meanwhile.
theorem requests_match_submissions (events : List SessionEvent) :
    ((loggedRun events).2.submissions.map Prod.fst).Nodup ∧ ((loggedRun events).2.sent.map Prod.fst).Nodup ∧
      ∀ inst request, (inst, request) ∈ (loggedRun events).2.sent →
        (inst, some request) ∈ (loggedRun events).2.submissions := by
  have logged := logged_run events
  exact ⟨logged.distinct, logged.sentOnce, logged.matched⟩

end AppFit.Browser
