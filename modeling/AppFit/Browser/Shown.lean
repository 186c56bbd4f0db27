import AppFit.Browser.Recording

/- What the Results tab shows, and where the results that the page keeps come
   from. -/
set_option autoImplicit false

namespace AppFit.Browser

open AppFit.Runs

-- The response of an instance that is still mounted, and that can be plotted.
def Records (session : Session) : SessionEvent → Prop
  | .responseArrives index results =>
      (∃ inst, session.awaiting[index]? = some inst ∧ session.mounted = some inst) ∧ SomeBelow70 results
  | _ => False

def arrivedResults : SessionEvent → Option Results
  | .responseArrives _ results => some results
  | _ => none

theorem stored_change (session : Session) (event : SessionEvent) :
    Records session event ∧ (sessionStep session event).page.resultsState = arrivedResults event ∨
      ¬ Records session event ∧ (sessionStep session event).page.resultsState = session.page.resultsState := by
  have edited (edits : event.edits = true) :
      (sessionStep session event).page.resultsState = session.page.resultsState := by
    obtain ⟨form, appState, files, step, _⟩ := edit_step session event edits
    rw [step]
  cases event with
  | responseArrives index results =>
      simp only [Records, arrivedResults, sessionStep, deliverResponse]
      cases awaited : session.awaiting[index]? with
      | none => exact .inr ⟨by simp, rfl⟩
      | some inst =>
          simp only [response_results, Option.some.injEq, exists_eq_left']
          by_cases ready : session.mounted = some inst ∧ SomeBelow70 results
          · exact .inl ⟨ready, if_pos ready⟩
          · exact .inr ⟨ready, if_neg ready⟩
  | tabClick tab => exact .inr ⟨id, by rw [tab_click_page]; rfl⟩
  | submit =>
      refine .inr ⟨id, ?_⟩
      rw [submit_step]
      split
      · rw [did_mount_page]
        rfl
      · rfl
  | uploadAnswered index accepted =>
      obtain ⟨uploads, analytics, completed, step⟩ := upload_answer_frame session index accepted
      exact .inr ⟨id, by rw [sessionStep, step]⟩
  | analyticsHandled index =>
      obtain ⟨analytics, awaiting, cacheFile, step⟩ := analytics_frame session index
      exact .inr ⟨id, by rw [sessionStep, step]⟩
  | responseUnusable index => exact .inr ⟨id, rfl⟩
  | _ => exact .inr ⟨id, edited rfl⟩

-- The curves on the page are always those of the results it keeps.
def CanvasStored (session : Session) : Prop :=
  ∀ plot, session.canvas = some plot →
    ∃ results, session.page.resultsState = some results ∧ plotData true results = some plot

theorem did_mount_canvas (session : Session) (inst : Nat) :
    (componentDidMount session inst).canvas =
      if session.page.analyze then session.canvas
      else
        match session.page.resultsState with
        | none => session.canvas
        | some results => plotData true results := by
  rw [componentDidMount]
  split
  · split
    · obtain ⟨analytics, same⟩ := get_metrics_frame session inst
      rw [same]
    · split <;> rfl
  · cases session.page.resultsState <;> rfl

theorem canvas_mount (session : Session) (page : PageState) :
    CanvasStored (componentDidMount (mount session page) session.instances) := by
  intro plot shown
  rw [did_mount_canvas] at shown
  rw [did_mount_page]
  have blank : (mount session page).canvas = none := rfl
  split at shown
  · rw [blank] at shown
    cases shown
  · split at shown
    · rw [blank] at shown
      cases shown
    · rename_i results stored
      exact ⟨results, stored, shown⟩

theorem canvas_response (session : Session) (inst : Nat) (results : Results) (stored : CanvasStored session) :
    CanvasStored (handleResponse session inst results) := by
  rw [handleResponse]
  cases plotted : plotData (session.mounted == some inst) results with
  | none => exact stored
  | some plot =>
      have shown := (plot_data_isSome (session.mounted == some inst) results).mp (by rw [plotted]; rfl)
      rw [shown.1] at plotted
      have step := render_same { session with canvas := some plot } (session.page.flush [.resultsState results]) rfl
      dsimp only
      rw [step]
      intro other same
      cases same
      exact ⟨results, rfl, plotted⟩

theorem canvas_step (session : Session) (event : SessionEvent) (stored : CanvasStored session) :
    CanvasStored (sessionStep session event) := by
  have edited (edits : event.edits = true) : CanvasStored (sessionStep session event) := by
    obtain ⟨form, appState, files, step, _⟩ := edit_step session event edits
    rw [step]
    exact stored
  cases event with
  | tabClick tab =>
      by_cases same : tab = session.page.currentTab
      · subst same
        rw [tab_click_same]
        exact stored
      · by_cases results : tab = .results
        · subst results
          rw [tab_click_mounts session (Ne.symm same)]
          exact canvas_mount session _
        · obtain ⟨form, step⟩ := tab_click_leaves session tab same results
          rw [step]
          intro plot shown
          cases shown
  | submit =>
      rw [submit_step]
      split
      · exact canvas_mount session _
      · exact stored
  | uploadAnswered index accepted =>
      obtain ⟨uploads, analytics, completed, step⟩ := upload_answer_frame session index accepted
      rw [sessionStep, step]
      exact stored
  | analyticsHandled index =>
      obtain ⟨analytics, awaiting, cacheFile, step⟩ := analytics_frame session index
      rw [sessionStep, step]
      exact stored
  | responseArrives index results =>
      rw [sessionStep, deliverResponse]
      split
      · exact stored
      · exact canvas_response _ _ results stored
  | responseUnusable index => exact stored
  | _ => exact edited rfl

theorem shown_results_are_latest (events : List SessionEvent) :
    (∀ results, (run sessionStep startSession events).page.resultsState = some results ↔
      ∃ before event after, Latest sessionStep Records startSession events before event after ∧
        arrivedResults event = some results) ∧
      CanvasStored (run sessionStep startSession events) := by
  refine ⟨fun results => ?_, ?_⟩
  · exact latest_value sessionStep Records (fun session => session.page.resultsState) (fun _ event => arrivedResults event)
      stored_change startSession events rfl results
  · refine run_invariant sessionStep CanvasStored startSession events ?_ canvas_step
    intro plot shown
    cases shown

end AppFit.Browser
