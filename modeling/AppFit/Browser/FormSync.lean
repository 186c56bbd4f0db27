import AppFit.Browser.Session

/- Whether the page's copy of the form follows the form. The handlers call
   updateState before their own setState has taken effect, so they hand the page
   the state that the event has just changed. -/
set_option autoImplicit false

namespace AppFit.Browser

open AppFit.Runs

def formFields (form : AppForm) : AppState := ⟨form.appCommand, form.testCommand, form.debugMode, form.useCache⟩

def SessionEvent.ofForm : SessionEvent → Bool
  | .appCommandChange _ => true
  | .testCommandChange _ => true
  | .useCacheChange => true
  | .debugModeChange => true
  | .appPackageChange _ => true
  | .cacheFetched _ _ => true
  | _ => false

def Synced (session : Session) : Prop := session.page.appState = some (formFields session.form)

-- Leaving the Application tab and coming back shows the form as it was.
def Restored (session : Session) : Prop :=
  ∀ tab, tab ≠ .application →
    formFields (run sessionStep session [.tabClick tab, .tabClick .application]).form = formFields session.form

def FormKept (session : Session) (event : SessionEvent) : Prop :=
  Synced (sessionStep session event) ∧ Restored (sessionStep session event)

def LeavesFields (session : Session) : SessionEvent → Prop
  | .appCommandChange value => value = session.form.appCommand
  | .testCommandChange value => value = session.form.testCommand
  | .useCacheChange => False
  | .debugModeChange => False
  | _ => True

def formNext (form : AppForm) : SessionEvent → AppForm
  | .appCommandChange value => { form with appCommand := value }
  | .testCommandChange value => { form with testCommand := value }
  | .useCacheChange => { form with useCache := !form.useCache }
  | .debugModeChange => { form with debugMode := !form.debugMode }
  | .appPackageChange files => { form with appPackage := some files, submitButtonDisabledState := false }
  | .cacheFetched appCommand testCommand => { form with appCommand := appCommand, testCommand := testCommand }
  | _ => form

def handedOver (form : AppForm) (event : SessionEvent) : AppState :=
  match event with
  | .cacheFetched _ _ => formFields (formNext form event)
  | _ => formFields form

theorem form_step (session : Session) (event : SessionEvent) (shown : session.page.currentTab = .application)
    (own : event.ofForm = true) :
    ∃ files, sessionStep session event =
      { session with
        form := formNext session.form event
        page := { session.page with appState := some (handedOver session.form event), fileToUpload := files } } := by
  cases event with
  | appCommandChange value => exact ⟨session.page.fileToUpload, (if_pos shown).trans (render_same _ _ rfl)⟩
  | testCommandChange value => exact ⟨session.page.fileToUpload, (if_pos shown).trans (render_same _ _ rfl)⟩
  | useCacheChange => exact ⟨session.page.fileToUpload, (if_pos shown).trans (render_same _ _ rfl)⟩
  | debugModeChange => exact ⟨session.page.fileToUpload, (if_pos shown).trans (render_same _ _ rfl)⟩
  | appPackageChange files => exact ⟨some files, (if_pos shown).trans (render_same _ _ rfl)⟩
  | cacheFetched appCommand testCommand =>
      exact ⟨session.page.fileToUpload, (if_pos shown).trans (render_same _ _ rfl)⟩
  | tabClick tab => cases own
  | lateCacheFetched state => cases own
  | submit => cases own
  | uploadAnswered index accepted => cases own
  | analyticsHandled index => cases own
  | responseArrives index results => cases own
  | responseUnusable index => cases own

theorem handed_over_iff (session : Session) (event : SessionEvent) (own : event.ofForm = true) :
    handedOver session.form event = formFields (formNext session.form event) ↔ LeavesFields session event := by
  cases event with
  | appCommandChange value => simp [handedOver, formFields, formNext, LeavesFields, eq_comm]
  | testCommandChange value => simp [handedOver, formFields, formNext, LeavesFields, eq_comm]
  | useCacheChange => simp [handedOver, formFields, formNext, LeavesFields]
  | debugModeChange => simp [handedOver, formFields, formNext, LeavesFields]
  | appPackageChange files => simp [handedOver, formFields, formNext, LeavesFields]
  | cacheFetched appCommand testCommand => simp [handedOver, LeavesFields]
  | _ => cases own

theorem synced_restored (session : Session) (synced : Synced session) : Restored session := by
  intro tab away
  have left := tab_click_page session tab
  have changed : ¬ (clickedPage (sessionStep session (.tabClick tab)).page .application).currentTab =
      (sessionStep session (.tabClick tab)).page.currentTab := by
    rw [left]
    exact away.symm
  have appState : (clickedPage (sessionStep session (.tabClick tab)).page .application).appState =
      some (formFields session.form) := by
    rw [left]
    exact synced
  rw [run_cons, run_cons, run_nil, tab_click_step, render, if_neg changed]
  simp only [clickedPage] at appState ⊢
  rw [appState]
  rfl

theorem form_kept_step (session : Session) (event : SessionEvent) (shown : session.page.currentTab = .application)
    (own : event.ofForm = true) :
    (FormKept session event ↔ LeavesFields session event) ∧
      (sessionStep session event).page.currentTab = .application := by
  obtain ⟨files, stepped⟩ := form_step session event shown own
  have synced : Synced (sessionStep session event) ↔ LeavesFields session event := by
    rw [← handed_over_iff session event own, stepped, Synced, Option.some.injEq]
  have stays : (sessionStep session event).page.currentTab = .application := by
    rw [stepped]
    exact shown
  refine ⟨⟨fun kept => synced.mp kept.1, ?_⟩, stays⟩
  intro leaves
  exact ⟨synced.mpr leaves, synced_restored _ (synced.mpr leaves)⟩

theorem form_kept_iff (events : List SessionEvent) (own : ∀ event ∈ events, event.ofForm = true) :
    Along sessionStep FormKept startSession events ↔ Along sessionStep LeavesFields startSession events := by
  refine along_iff_of_legal_simulation sessionStep sessionStep
    (fun session other => session = other ∧ session.page.currentTab = .application)
    (fun _ event => event.ofForm = true) FormKept LeavesFields ?_ ?_ startSession startSession events ⟨rfl, rfl⟩
    (along_of_mem sessionStep (fun event => event.ofForm = true) startSession events own)
  · intro session other event same legal
    obtain ⟨rfl, shown⟩ := same
    exact (form_kept_step session event shown legal).1
  · intro session other event same legal _
    obtain ⟨rfl, shown⟩ := same
    exact ⟨rfl, (form_kept_step session event shown legal).2⟩

def prefilledForm : List SessionEvent :=
  [chosenPackage, .cacheFetched "./serve".toList "./load".toList, .appCommandChange "./serve".toList]

theorem prefilled_form_kept : Along sessionStep FormKept startSession prefilledForm :=
  (form_kept_iff prefilledForm (by simp [prefilledForm, chosenPackage, SessionEvent.ofForm])).mpr
    ⟨trivial, trivial, rfl, trivial⟩

theorem typed_command_not_kept : ¬ Along sessionStep FormKept startSession [.appCommandChange "./serve".toList] := by
  intro kept
  have appState := kept.1.1
  cases appState

end AppFit.Browser
